import Transcode.Proofs.Substituting

/-!
# Literals stay as they are

A line is laid out as code and literals: a literal runs from a quote to the next quote of its kind
that is not escaped, and only the last one can be without its end. Every line has one layout
(`Output.isLayout_iff`). What an expression is written as has the same literals, and the code
between them is written by itself (`Output.Scope.layout_expression`).
-/

namespace Transcode.Output

open Regex Text

/-! ### Layouts of lines -/

/-- The characters that a literal starts with. -/
def IsQuote (c : Char) : Prop := c = '"' ∨ c = '\''

/-- What can stand behind the quote of a literal: characters other than this quote, and any
characters behind a backslash. -/
inductive IsBody (quote : Char) : List Char → Prop where
  | nil : IsBody quote []
  | plain {c : Char} {rest : List Char} : c ≠ quote → c ≠ '\\' → IsBody quote rest →
    IsBody quote (c :: rest)
  | escaped {c : Char} {rest : List Char} : IsBody quote rest → IsBody quote ('\\' :: c :: rest)

/-- A literal from its quote to its quote. -/
def IsLiteral (cs : List Char) : Prop :=
  ∃ quote body, IsQuote quote ∧ IsBody quote body ∧ cs = quote :: (body ++ [quote])

/-- A literal that its line ends in, perhaps right behind a backslash. -/
def IsOpenLiteral (cs : List Char) : Prop :=
  ∃ quote body, IsQuote quote ∧ IsBody quote body ∧
    (cs = quote :: body ∨ cs = quote :: (body ++ ['\\']))

/-- Code has no quote in it. -/
def IsCode (cs : List Char) : Prop := ∀ c ∈ cs, ¬IsQuote c

/-- The layout of a line: code and literals in turn. -/
inductive IsLayout : List Char → List Section → Prop where
  | code {code : List Char} : IsCode code → IsLayout code [.code code]
  | literal {code literal rest : List Char} {parts : List Section} : IsCode code →
    IsLiteral literal → IsLayout rest parts →
    IsLayout (code ++ (literal ++ rest)) (.code code :: .literal literal :: parts)
  | openLiteral {code literal : List Char} : IsCode code → IsOpenLiteral literal →
    IsLayout (code ++ literal) [.code code, .literal literal]

/-- A section after a change of code. -/
def Section.change (change : List Char → List Char) : Section → Section
  | .code cs => .code (change cs)
  | .literal cs => .literal cs

section Layout

variable {quote c : Char} {body rest cs : List Char}

/-- Two bodies of literals are one after another. -/
theorem IsBody.append {others : List Char} (isBody : IsBody quote body)
    (also : IsBody quote others) :
    IsBody quote (body ++ others) := by
  induction isBody with
  | nil => exact also
  | plain other noEscape _ ih => exact .plain other noEscape ih
  | escaped _ ih => exact .escaped ih

theorem isCode_append {others : List Char} (isCode : IsCode cs) (also : IsCode others) :
    IsCode (cs ++ others) := List.forall_mem_append.mpr ⟨isCode, also⟩

/-- A character that is no quote may be read in code. -/
theorem isCode_reverse_cons {read : List Char} (isCode : IsCode read.reverse) (other : ¬IsQuote c) :
    IsCode (c :: read).reverse := by
  rw [List.reverse_cons]
  exact List.forall_mem_append.mpr ⟨isCode, List.forall_mem_singleton.mpr other⟩

/-- A quote ends a section of code. -/
theorem sectionsFrom_quote (isQuote : IsQuote c) (read rest : List Char) :
    sectionsFrom .code read (c :: rest) =
      .code read.reverse :: sectionsFrom (.literal c) [c] rest := by
  rw [sectionsFrom, if_pos]
  simpa [IsQuote] using isQuote

/-- Any other character goes on with the code. -/
theorem sectionsFrom_other (other : ¬IsQuote c) (read rest : List Char) :
    sectionsFrom .code read (c :: rest) = sectionsFrom .code (c :: read) rest := by
  rw [sectionsFrom, if_neg]
  simpa [IsQuote] using other

/-- What a scan has read of its section before a rest, and how the line behind some code is laid
out if that is the whole of it. -/
def LaysOut (rest : List Char) : Scan → List Char → Prop
  | .code, read => IsCode read.reverse →
    IsLayout (read.reverse ++ rest) (sectionsFrom .code read rest)
  | .literal quote, read => IsQuote quote →
    ∀ body code, IsBody quote body → read.reverse = quote :: body → IsCode code →
      IsLayout (code ++ (read.reverse ++ rest))
        (.code code :: sectionsFrom (.literal quote) read rest)
  | .escape quote, read => IsQuote quote →
    ∀ body code, IsBody quote body → read.reverse = quote :: (body ++ ['\\']) → IsCode code →
      IsLayout (code ++ (read.reverse ++ rest))
        (.code code :: sectionsFrom (.escape quote) read rest)

/-- A scan lays out the rest of a line. -/
theorem laysOut (rest : List Char) (scan : Scan) (read : List Char) : LaysOut rest scan read := by
  induction rest generalizing scan read with
  | nil =>
      cases scan with
      | code =>
          intro isCode
          rw [List.append_nil]
          exact .code isCode
      | literal quote =>
          intro isQuote body code isBody same isCode
          rw [List.append_nil]
          exact .openLiteral isCode ⟨quote, body, isQuote, isBody, .inl same⟩
      | escape quote =>
          intro isQuote body code isBody same isCode
          rw [List.append_nil]
          exact .openLiteral isCode ⟨quote, body, isQuote, isBody, .inr same⟩
  | cons c rest ih =>
      have moved : (c :: read).reverse ++ rest = read.reverse ++ c :: rest := by
        rw [List.reverse_cons, List.append_assoc, List.singleton_append]
      cases scan with
      | code =>
          intro isCode
          by_cases isQuote : IsQuote c
          · rw [sectionsFrom_quote isQuote]
            exact ih (.literal c) [c] isQuote [] _ .nil rfl isCode
          · rw [sectionsFrom_other isQuote, ← moved]
            exact ih .code (c :: read) (isCode_reverse_cons isCode isQuote)
      | literal quote =>
          intro isQuote body code isBody same isCode
          rw [sectionsFrom, ← moved]
          split
          · rename_i isEscape
            refine ih (.escape quote) (c :: read) isQuote body code isBody ?_ isCode
            rw [List.reverse_cons, same, isEscape, List.cons_append]
          · split
            · rename_i isEnd
              have closed : (c :: read).reverse = quote :: (body ++ [quote]) := by
                rw [List.reverse_cons, same, isEnd, List.cons_append]
              exact .literal isCode ⟨quote, body, isQuote, isBody, closed⟩
                (ih .code [] (List.forall_mem_nil _))
            · rename_i noEscape noEnd
              refine ih (.literal quote) (c :: read) isQuote (body ++ [c]) code
                (isBody.append (.plain noEnd noEscape .nil)) ?_ isCode
              rw [List.reverse_cons, same, List.cons_append]
      | escape quote =>
          intro isQuote body code isBody same isCode
          rw [sectionsFrom, ← moved]
          refine ih (.literal quote) (c :: read) isQuote (body ++ ['\\', c]) code
            (isBody.append (.escaped .nil)) ?_ isCode
          rw [List.reverse_cons, same]
          simp

theorem isLayout_sections (line : List Char) : IsLayout line (sections line) :=
  laysOut line .code [] (List.forall_mem_nil _)

/-! ### One layout for each line -/

/-- Code is read into one section. -/
theorem sectionsFrom_code {code read : List Char} (isCode : IsCode code) (rest : List Char) :
    sectionsFrom .code read (code ++ rest) = sectionsFrom .code (code.reverse ++ read) rest := by
  induction code generalizing read with
  | nil => rfl
  | cons c others ih =>
      obtain ⟨here, later⟩ := List.forall_mem_cons.mp isCode
      rw [List.cons_append, sectionsFrom_other here, ih later, List.reverse_cons, List.append_assoc,
        List.singleton_append]

/-- The body of a literal is read into one section. -/
theorem sectionsFrom_body (isBody : IsBody quote body) (read rest : List Char) :
    sectionsFrom (.literal quote) read (body ++ rest) =
      sectionsFrom (.literal quote) (body.reverse ++ read) rest := by
  induction isBody generalizing read with
  | nil => rfl
  | plain other noEscape _ ih =>
      rw [List.cons_append, sectionsFrom, if_neg noEscape, if_neg other, ih, List.reverse_cons,
        List.append_assoc, List.singleton_append]
  | escaped _ ih =>
      rw [List.cons_append, List.cons_append, sectionsFrom, if_pos rfl, sectionsFrom, ih]
      simp

theorem noEscape_of_isQuote (isQuote : IsQuote quote) : quote ≠ '\\' := by
  rcases isQuote with rfl | rfl <;> decide

/-- A line has no other layout than its sections. -/
theorem sections_eq {line : List Char} {parts : List Section} (layout : IsLayout line parts) :
    sections line = parts := by
  induction layout with
  | @code code isCode =>
      have scanned : sectionsFrom .code [] (code ++ []) = _ := sectionsFrom_code isCode []
      rw [List.append_nil] at scanned
      rw [sections, scanned]
      simp [sectionsFrom]
  | @literal code _ rest parts isCode isLiteral _ ih =>
      obtain ⟨quote, body, isQuote, isBody, rfl⟩ := isLiteral
      rw [sections, sectionsFrom_code isCode, List.cons_append, sectionsFrom_quote isQuote,
        List.append_assoc, sectionsFrom_body isBody, List.singleton_append, sectionsFrom,
        if_neg (noEscape_of_isQuote isQuote), if_pos rfl, ← ih, sections]
      simp
  | @openLiteral code _ isCode isOpen =>
      obtain ⟨quote, body, isQuote, isBody, rfl | rfl⟩ := isOpen
      · have scanned := sectionsFrom_body isBody [quote] []
        rw [List.append_nil] at scanned
        rw [sections, sectionsFrom_code isCode, sectionsFrom_quote isQuote, scanned]
        simp [sectionsFrom]
      · rw [sections, sectionsFrom_code isCode, sectionsFrom_quote isQuote,
          sectionsFrom_body isBody, sectionsFrom, if_pos rfl]
        simp [sectionsFrom]

/-- **Every line has one layout,** and it is found by a scan. -/
theorem isLayout_iff {line : List Char} {parts : List Section} :
    IsLayout line parts ↔ sections line = parts :=
  ⟨sections_eq, fun same => same ▸ isLayout_sections line⟩

/-- A change of the code that makes code of it keeps the layout of a line. -/
theorem IsLayout.mapCode {line : List Char} {parts : List Section} (layout : IsLayout line parts)
    {change : List Char → List Char} (keeps : ∀ code, IsCode code → IsCode (change code)) :
    IsLayout (parts.flatMap (·.mapCode change)) (parts.map (·.change change)) := by
  induction layout with
  | code isCode => simpa [Section.mapCode, Section.change] using IsLayout.code (keeps _ isCode)
  | literal isCode isLiteral _ ih =>
      exact .literal (keeps _ isCode) isLiteral ih
  | openLiteral isCode isOpen =>
      simpa [Section.mapCode, Section.change] using IsLayout.openLiteral (keeps _ isCode) isOpen

end Layout

/-! ### What is written for code -/

instance : DecidablePred IsQuote := fun _ => inferInstanceAs (Decidable (_ ∨ _))

instance (cs : List Char) : Decidable (IsCode cs) := List.decidableBAll _ cs

/-- A substitution that matches no empty text and writes no quote of its own. -/
structure Substitution.IsPlain (substitution : Substitution) : Prop where
  consumes : 0 < substitution.pattern.least
  isCode : IsCode substitution.replacement.toList

/-- What a substitution makes of code is code. -/
theorem Substitution.Makes.isCode {substitution : Substitution} {read rest out : List Char}
    (makes : substitution.Makes read rest out) (plain : IsCode substitution.replacement.toList)
    (isCode : IsCode rest) : IsCode out := by
  induction makes with
  | done => exact isCode
  | keep _ _ ih =>
      obtain ⟨here, later⟩ := List.forall_mem_cons.mp isCode
      exact List.forall_mem_cons.mpr ⟨here, ih later⟩
  | swap found _ ih =>
      obtain ⟨taken, later⟩ :=
        List.forall_mem_append.mp (Substitution.rest_eq_of_swap? found ▸ isCode)
      refine List.forall_mem_append.mpr ⟨fun c member => ?_, ih later⟩
      exact (Substitution.mem_of_mem_written found c member).elim (plain c) (taken c)

/-- A plain substitution makes code of code. -/
theorem Substitution.IsPlain.isCode_apply {substitution : Substitution}
    (plain : substitution.IsPlain)
    {code : List Char} (isCode : IsCode code) : IsCode (substitution.apply code) :=
  ((makes_iff plain.consumes).mpr rfl).isCode plain.isCode isCode

/-- The rules for expressions are plain. -/
theorem isPlain_of_mem_expressionSubstitutions :
    ∀ substitution ∈ expressionSubstitutions, substitution.IsPlain := by
  have each : ∀ substitution ∈ expressionSubstitutions,
      0 < substitution.pattern.least ∧ IsCode substitution.replacement.toList := by decide +kernel
  exact fun substitution member => ⟨(each substitution member).1, (each substitution member).2⟩

theorem least_callOf_pos (start : Regex) : 0 < (callOf start).least := by
  simp only [callOf, Regex.sequence, least, char]
  omega

namespace Scope

/-- A scope that is put together of parts that write no quotes. -/
inductive IsUnquoted : Scope → Prop where
  | empty : IsUnquoted {}
  | member {scope : Scope} (name : String) {qualified : String} : IsUnquoted scope →
    IsCode qualified.toList → IsUnquoted (scope.member name qualified)
  | method {scope : Scope} (name : String) {qualified : String} : IsUnquoted scope →
    IsCode qualified.toList → IsUnquoted (scope.method name qualified)
  | hide {scope : Scope} (name : String) : IsUnquoted scope → IsUnquoted (scope.hide name)
  | rename {scope : Scope} (name : String) {renamed : String} : IsUnquoted scope →
    IsCode renamed.toList → IsUnquoted (scope.rename name renamed)
  | moduleFunction {scope : Scope} (module : String) {name : String} : IsUnquoted scope →
    IsCode name.toList → IsUnquoted (scope.moduleFunction module name)

/-- Nothing that a scope writes has a quote in it. -/
structure WritesCode (scope : Scope) : Prop where
  members : ∀ name qualified, scope.members.get? name = some qualified → IsCode qualified.toList
  methods : ∀ name qualified, scope.methods.get? name = some qualified → IsCode qualified.toList
  renamed : ∀ substitution ∈ scope.renamed, substitution.IsPlain
  released : ∀ substitution ∈ scope.released, substitution.IsPlain

/-- Compiling a rule does not change it. -/
theorem eq_of_mem_compiled {rule other : Substitution} (member : other ∈ rule.compiled) :
    other = rule := by
  unfold Substitution.compiled at member
  split at member
  · exact List.mem_singleton.mp member
  · cases member

/-- A dictionary of code stays so with one more entry. -/
theorem isCode_of_get?_insert {entries : Dict String} {name value : String}
    (entriesCode : ∀ name value, entries.get? name = some value → IsCode value.toList)
    (isCode : IsCode value.toList) (other found : String)
    (there : (entries.insert name value).get? other = some found) : IsCode found.toList := by
  rw [Dict.get?_insert] at there
  split at there
  · exact Option.some.inj there ▸ isCode
  · exact entriesCode other found there

/-- A scope with names that have no quotes writes code. -/
theorem IsUnquoted.writesCode {scope : Scope} (unquoted : scope.IsUnquoted) : scope.WritesCode := by
  induction unquoted with
  | empty => exact ⟨nofun, nofun, List.forall_mem_nil _, List.forall_mem_nil _⟩
  | member name _ isCode ih => exact { ih with members := isCode_of_get?_insert ih.members isCode }
  | method name _ isCode ih => exact { ih with methods := isCode_of_get?_insert ih.methods isCode }
  | hide name _ ih => exact { ih with }
  | rename name _ isCode ih =>
      refine { ih with renamed := List.forall_mem_append.mpr ⟨ih.renamed, fun rule member => ?_⟩ }
      rw [eq_of_mem_compiled member]
      refine ⟨?_, ?_⟩
      · have literal : 0 < (literal "this.").least := by decide
        simp only [renameRule, Regex.sequence, least]
        omega
      · rw [renameRule, String.toList_append]
        exact isCode_append (by decide) isCode
  | moduleFunction module _ isCode ih =>
      refine { ih with released := List.forall_mem_append.mpr ⟨ih.released, fun rule member => ?_⟩ }
      rw [eq_of_mem_compiled member]
      refine ⟨least_callOf_pos _, ?_⟩
      rw [releaseRule, String.toList_append]
      exact isCode_append isCode (by decide)

/-- What a name means in such a scope is code. -/
theorem WritesCode.isCode_meaning? {scope : Scope} (writes : scope.WritesCode)
    {name qualified : String}
    {after : List Char} (means : scope.meaning? name after = some qualified) :
    IsCode qualified.toList := by
  unfold meaning? at means
  split at means
  · cases means
  · split at means
    · exact writes.methods _ _ means
    · exact writes.members _ _ means

/-- Qualifying names in such a scope makes code of code. -/
theorem WritesCode.isCode_qualifyAfter {scope : Scope} (writes : scope.WritesCode)
    (before : Option Char) {code : List Char} (isCode : IsCode code) :
    IsCode (scope.qualifyAfter before code) := by
  fun_induction scope.qualifyAfter before code with
  | case1 => exact isCode
  | case2 before c rest _ name after written ih =>
      obtain ⟨here, later⟩ := List.forall_mem_cons.mp isCode
      have isName : IsCode name := List.forall_mem_cons.mpr
        ⟨here, fun d member => later d ((List.takeWhile_sublist _).subset member)⟩
      refine List.forall_mem_append.mpr
        ⟨?_, ih fun d member => later d ((List.dropWhile_sublist _).subset member)⟩
      cases found : written with
      | none => exact isName
      | some qualified =>
          have means : scope.meaning? (String.ofList name) after = some qualified := by
            by_cases attached : before.any attaches
            · simp [written, attached] at found
            · simpa [written, attached] using found
          exact writes.isCode_meaning? means
  | case3 before c rest _ ih =>
      obtain ⟨here, later⟩ := List.forall_mem_cons.mp isCode
      exact List.forall_mem_cons.mpr ⟨here, ih later⟩

/-- Replacing code in such a scope makes code. -/
theorem WritesCode.isCode_replaceCode {scope : Scope} (writes : scope.WritesCode) {code : List Char}
    (isCode : IsCode code) : IsCode (scope.replaceCode code) := by
  have each : ∀ substitution ∈ expressionSubstitutions ++ scope.released ++ scope.renamed,
      substitution.IsPlain := List.forall_mem_append.mpr
    ⟨List.forall_mem_append.mpr ⟨isPlain_of_mem_expressionSubstitutions, writes.released⟩,
      writes.renamed⟩
  have folded (substitutions : List Substitution)
      (plain : ∀ substitution ∈ substitutions, substitution.IsPlain) {code : List Char}
      (isCode : IsCode code) :
      IsCode (applyAll substitutions code) := by
    induction substitutions generalizing code with
    | nil => exact isCode
    | cons substitution rest ih =>
        obtain ⟨here, later⟩ := List.forall_mem_cons.mp plain
        exact ih later (here.isCode_apply isCode)
  exact writes.isCode_qualifyAfter none (folded _ each isCode)

/-- **Literals stay as they are:** a text is laid out as code and literals, and what it is written
as has the same literals and between them the code that the scope makes of each part on its own. -/
theorem layout_expression {scope : Scope} (unquoted : scope.IsUnquoted) (text : String) :
    ∃ parts, IsLayout text.toList parts ∧
      IsLayout (scope.expression text).toList (parts.map (·.change scope.replaceCode)) := by
  have layout := isLayout_sections text.toList
  refine ⟨sections text.toList, layout, ?_⟩
  rw [expression, String.toList_ofList]
  exact layout.mapCode fun _ isCode => unquoted.writesCode.isCode_replaceCode isCode

/-- In this text the other quote and an escaped quote stand in a literal, and the last literal has
no end. -/
theorem layout_expression_quotes :
    let scope := ((({} : Scope).member "x" "this.x").rename "a" "b").moduleFunction "M" "f"
    let text := "x == \"it's \\\" x\" + M.f(this.a, 'x) != x"
    scope.IsUnquoted ∧ ∃ parts, IsLayout text.toList parts ∧
      IsLayout (scope.expression text).toList (parts.map (·.change scope.replaceCode)) := by
  intro scope text
  have unquoted : scope.IsUnquoted :=
    .moduleFunction "M" (.rename "a" (.member "x" .empty (by decide)) (by decide)) (by decide)
  exact ⟨unquoted, layout_expression unquoted text⟩

end Scope

end Transcode.Output
