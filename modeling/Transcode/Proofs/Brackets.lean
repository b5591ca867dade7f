import Mathlib.Data.List.Infix
import Transcode.Proofs.Legibility
import Transcode.Proofs.Parts

/-!
# Brackets among tokens

The braces among tokens are balanced if each closes one that was opened before and none stays open
(`Token.Balanced`). A stretch of tokens that counts all brackets by one depth keeps the braces
balanced as long as no bracket is closed by one of the other sort (`Token.uncrossed`,
`Token.Scans.closes_of_uncrossed`), and so does a group in angles in which no brace closes
(`Token.AnglesClear`).
-/

namespace Transcode

namespace Token

/-- The braces among tokens are balanced: no more are closed than were opened before, and all are
closed in the end. -/
structure Balanced (tokens : List Token) : Prop where
  prefixes : ∀ start, start <+: tokens →
    start.countP (·.is "\x7d") ≤ start.countP (·.is "\x7b")
  whole : tokens.countP (·.is "\x7b") = tokens.countP (·.is "\x7d")

/-- Whether a token is a brace. -/
def isBrace (token : Token) : Bool := token.isAny ["\x7b", "\x7d"]

variable {token : Token} {tokens rest : List Token} {depth : Nat}

theorem isBrace_eq_false : token.isBrace = false ↔ ¬token.is "\x7b" ∧ ¬token.is "\x7d" := by
  simp [isBrace, isAny]

/-- A word or sign that is no brace. -/
theorem isBrace_of_is {text : String} (is : token.is text) (plain : text ∉ ["\x7b", "\x7d"]) :
    token.isBrace = false := by
  simp only [List.mem_cons, List.not_mem_nil, or_false, not_or] at plain
  simp [isBrace_eq_false, is_eq is, plain]

/-- A token with a text that is no brace, whatever its kind. -/
theorem isBrace_of_text (plain : token.text ∉ ["\x7b", "\x7d"]) : token.isBrace = false := by
  simp only [List.mem_cons, List.not_mem_nil, or_false, not_or] at plain
  exact isBrace_eq_false.mpr ⟨mt text_eq_of_is plain.1, mt text_eq_of_is plain.2⟩

theorem opens_of_is (is : token.is "\x7b") : token.opens := by simp [opens, isAny, is]

theorem closes_of_is (is : token.is "\x7d") : token.closes := by simp [closes, isAny, is]

/-- What closes does not open. -/
theorem not_opens_of_closes (isClosing : token.closes) : ¬token.opens := by
  obtain ⟨text, listed, is⟩ := List.any_eq_true.mp isClosing
  intro isOpening
  obtain ⟨other, listedOther, isOther⟩ := List.any_eq_true.mp isOpening
  rw [is_eq is, decide_eq_true_eq] at isOther
  subst isOther
  revert listed listedOther
  simp only [List.mem_cons, List.not_mem_nil, or_false]
  rintro (rfl | rfl | rfl) <;> decide

theorem isBrace_of_plain (noOpening : ¬token.opens) (noClosing : ¬token.closes) :
    token.isBrace = false :=
  isBrace_eq_false.mpr ⟨mt opens_of_is noOpening, mt closes_of_is noClosing⟩

/-! ### Braces that are closed later -/

/-- The tokens close the braces that are open before them, as many as `depth`, and all that they
open themselves. -/
def Closes : Nat → List Token → Prop
  | depth, [] => depth = 0
  | depth, token :: rest =>
    if token.is "\x7b" then Closes (depth + 1) rest
    else if token.is "\x7d" then ∃ outer, depth = outer + 1 ∧ Closes outer rest
    else Closes depth rest

theorem closes_cons_open (is : token.is "\x7b") :
    Closes depth (token :: rest) ↔ Closes (depth + 1) rest := by
  rw [Closes, if_pos is]

/-- A brace that closes has been opened. -/
theorem closes_cons_close (is : token.is "\x7d") :
    Closes (depth + 1) (token :: rest) ↔ Closes depth rest := by
  have other : ¬token.is "\x7b" := by simp [is_eq is]
  rw [Closes, if_neg other, if_pos is]
  simp

/-- Other tokens do not matter. -/
theorem closes_cons_plain (plain : token.isBrace = false) :
    Closes depth (token :: rest) ↔ Closes depth rest := by
  obtain ⟨noOpen, noClose⟩ := isBrace_eq_false.mp plain
  rw [Closes, if_neg noOpen, if_neg noClose]

/-- A stretch without braces does not matter. -/
theorem closes_append_plain {taken : List Token} (plain : ∀ token ∈ taken, token.isBrace = false) :
    Closes depth (taken ++ rest) ↔ Closes depth rest := by
  induction taken with
  | nil => rfl
  | cons token taken ih =>
      obtain ⟨first, others⟩ := List.forall_mem_cons.mp plain
      rw [List.cons_append, closes_cons_plain first, ih others]

/-- Tokens that close what is open never close more, and all in the end. -/
theorem Closes.counts (closes : Closes depth tokens) :
    (∀ start, start <+: tokens →
      start.countP (·.is "\x7d") ≤ depth + start.countP (·.is "\x7b")) ∧
    depth + tokens.countP (·.is "\x7b") = tokens.countP (·.is "\x7d") := by
  induction tokens generalizing depth with
  | nil =>
      obtain rfl : depth = 0 := closes
      exact ⟨fun start inside => by rw [List.prefix_nil.mp inside]; exact Nat.le_refl _, rfl⟩
  | cons token rest ih =>
      -- The first token is counted too, and the depth behind it differs by what it counts.
      have extend {inner : Nat} (later : Closes inner rest)
          (level : depth + (if token.is "\x7b" then 1 else 0) =
            inner + (if token.is "\x7d" then 1 else 0)) :
          (∀ start, start <+: token :: rest →
            start.countP (·.is "\x7d") ≤ depth + start.countP (·.is "\x7b")) ∧
          depth + (token :: rest).countP (·.is "\x7b") =
            (token :: rest).countP (·.is "\x7d") := by
        obtain ⟨prefixes, whole⟩ := ih later
        refine ⟨fun start inside => ?_, ?_⟩
        · rcases List.prefix_cons_iff.mp inside with rfl | ⟨start, rfl, further⟩
          · exact Nat.zero_le _
          · have fewer := prefixes start further
            rw [List.countP_cons, List.countP_cons]
            omega
        · rw [List.countP_cons, List.countP_cons]
          omega
      by_cases opening : token.is "\x7b"
      · exact extend ((closes_cons_open opening).mp closes) (by simp [is_eq opening])
      by_cases closing : token.is "\x7d"
      · rw [Closes, if_neg opening, if_pos closing] at closes
        obtain ⟨outer, rfl, later⟩ := closes
        exact extend later (by simp [opening, closing])
      · rw [closes_cons_plain (isBrace_eq_false.mpr ⟨opening, closing⟩)] at closes
        exact extend closes (by simp [opening, closing])

/-- Tokens that close what they open are balanced. -/
theorem Closes.balanced (closes : Closes 0 tokens) : Balanced tokens := by
  obtain ⟨prefixes, whole⟩ := closes.counts
  simp only [Nat.zero_add] at prefixes whole
  exact ⟨prefixes, whole⟩

/-! ### Brackets of two sorts -/

/-- Whether no bracket is closed by one of the other sort, braces being one sort and round and
square brackets the other. A stack tells of the brackets open before, the innermost first, which of
them are braces; a bracket that closes nothing is let pass. -/
def uncrossed : List Bool → List Token → Bool
  | _, [] => true
  | stack, token :: rest =>
    if token.opens then uncrossed (token.is "\x7b" :: stack) rest
    else if token.closes then
      stack.head?.all (· == token.is "\x7d") && uncrossed stack.tail rest
    else uncrossed stack rest

/-- Brackets of the last tokens are uncrossed where those of all are. -/
theorem exists_uncrossed_of_suffix {stack : List Bool} (nested : uncrossed stack tokens)
    (suffix : rest <:+ tokens) : ∃ inner, uncrossed inner rest := by
  obtain ⟨taken, rfl⟩ := suffix
  induction taken generalizing stack with
  | nil => exact ⟨stack, nested⟩
  | cons token taken ih =>
      rw [List.cons_append, uncrossed] at nested
      split at nested
      · exact ih nested
      split at nested
      · exact ih (Bool.and_eq_true_iff.mp nested).2
      · exact ih nested

/-- From a depth of brackets of all sorts to the outside of them, by tokens of which only round and
square brackets are let pass that close what is not counted. -/
inductive Scans : Nat → List Token → List Token → Prop
  | done {tokens : List Token} : Scans 0 tokens tokens
  | opens {depth : Nat} {token : Token} {rest left : List Token} (isOpening : token.opens)
      (scans : Scans (depth + 1) rest left) : Scans depth (token :: rest) left
  | closes {depth : Nat} {token : Token} {rest left : List Token} (isClosing : token.closes)
      (scans : Scans depth rest left) : Scans (depth + 1) (token :: rest) left
  | stray {token : Token} {rest left : List Token} (isClosing : token.closes)
      (noBrace : ¬token.is "\x7d") (scans : Scans 0 rest left) : Scans 0 (token :: rest) left
  | plain {depth : Nat} {token : Token} {rest left : List Token} (noOpening : ¬token.opens)
      (noClosing : ¬token.closes) (scans : Scans depth rest left) :
      Scans depth (token :: rest) left

/-- Tokens that come back to the outside of all brackets keep the braces balanced if no bracket is
closed by one of the other sort. -/
theorem Scans.closes_of_uncrossed {left : List Token} (scans : Scans depth tokens left)
    {inner outer : List Bool} (counted : inner.length = depth)
    (nested : uncrossed (inner ++ outer) tokens) {level : Nat} (closes : Closes level left) :
    Closes (level + inner.count true) tokens := by
  induction scans generalizing inner outer with
  | done =>
      obtain rfl := List.length_eq_zero_iff.mp counted
      exact closes
  | @opens depth token rest left isOpening _ ih =>
      rw [uncrossed, if_pos isOpening] at nested
      have later : Closes (level + (token.is "\x7b" :: inner).count true) rest :=
        ih (congrArg (· + 1) counted) nested closes
      by_cases is : token.is "\x7b"
      · rw [is, List.count_cons_self] at later
        exact (closes_cons_open is).mpr later
      · rw [Bool.not_eq_true] at is
        rw [is, List.count_cons_of_ne Bool.false_ne_true] at later
        have noClosing (closing : token.is "\x7d") : False :=
          not_opens_of_closes (closes_of_is closing) isOpening
        exact (closes_cons_plain (isBrace_eq_false.mpr ⟨by simp [is], noClosing⟩)).mpr later
  | @closes depth token rest left isClosing _ ih =>
      have noOpening := not_opens_of_closes isClosing
      obtain ⟨innermost, inner, rfl⟩ := List.exists_cons_of_length_eq_add_one counted
      rw [uncrossed, if_neg noOpening, if_pos isClosing] at nested
      obtain ⟨sort, others⟩ := Bool.and_eq_true_iff.mp nested
      have same : innermost = token.is "\x7d" := by simpa using sort
      have later := ih (Nat.succ.inj counted) others closes
      by_cases is : token.is "\x7d"
      · rw [same, is, List.count_cons_self]
        exact (closes_cons_close is).mpr later
      · rw [Bool.not_eq_true] at is
        rw [same, is, List.count_cons_of_ne Bool.false_ne_true]
        exact (closes_cons_plain (isBrace_eq_false.mpr
          ⟨mt opens_of_is noOpening, by simp [is]⟩)).mpr later
  | stray isClosing noBrace _ ih =>
      have noOpening := not_opens_of_closes isClosing
      obtain rfl := List.length_eq_zero_iff.mp counted
      rw [uncrossed, if_neg noOpening, if_pos isClosing] at nested
      have later := ih (rfl : ([] : List Bool).length = 0) (Bool.and_eq_true_iff.mp nested).2 closes
      exact (closes_cons_plain (isBrace_eq_false.mpr
        ⟨mt opens_of_is noOpening, noBrace⟩)).mpr later
  | plain noOpening noClosing _ ih =>
      rw [uncrossed, if_neg noOpening, if_neg noClosing] at nested
      exact (closes_cons_plain (isBrace_of_plain noOpening noClosing)).mpr
        (ih counted nested closes)

/-! ### Angles -/

/-- In no group of tokens in angles a brace closes. -/
def AnglesClear (tokens : List Token) : Prop :=
  ∀ group ∈ tokens.tails, group.head?.any (·.is "<") → (Span.angles 0 group).closed →
    ∀ token ∈ (Span.angles 0 group).taken, ¬token.is "\x7d"

instance (tokens : List Token) : Decidable (AnglesClear tokens) :=
  inferInstanceAs (Decidable (∀ group ∈ tokens.tails, group.head?.any (·.is "<") →
    (Span.angles 0 group).closed → ∀ token ∈ (Span.angles 0 group).taken, ¬token.is "\x7d"))

/-- The angles of the last tokens are clear where those of all are. -/
theorem AnglesClear.suffix (clear : AnglesClear tokens) (suffix : rest <:+ tokens) :
    AnglesClear rest := fun group inside =>
  clear group ((List.mem_tails _ _).mpr (((List.mem_tails _ _).mp inside).trans suffix))

/-- Tokens in which brackets of two sorts do not cross, and in angles no brace closes, and whose
words are no braces. -/
structure Tidy (tokens : List Token) : Prop where
  uncrossed : ∃ stack, uncrossed stack tokens
  angles : AnglesClear tokens
  words : ∀ token ∈ tokens, token.isIdent → token.isBrace = false

/-- The last of tidy tokens are tidy. -/
theorem Tidy.suffix (tidy : Tidy tokens) (suffix : rest <:+ tokens) : Tidy rest where
  uncrossed := by
    obtain ⟨stack, nested⟩ := tidy.uncrossed
    exact exists_uncrossed_of_suffix nested suffix
  angles := tidy.angles.suffix suffix
  words := fun token member => tidy.words token (suffix.subset member)

/-- A stretch that is scanned to the depth where it began closes the braces that it opens. -/
theorem Tidy.closes_of_scans (tidy : Tidy tokens) {left : List Token} (scans : Scans 0 tokens left)
    (closes : Closes depth left) : Closes depth tokens := by
  obtain ⟨stack, nested⟩ := tidy.uncrossed
  exact scans.closes_of_uncrossed (rfl : ([] : List Bool).length = 0) nested closes

theorem Tidy.isBrace_of_isName (tidy : Tidy tokens) (member : token ∈ tokens)
    (name : Span.isName token) : token.isBrace = false :=
  tidy.words token member (Bool.and_eq_true_iff.mp name).1

/-- A name has the text of no brace. -/
theorem Tidy.text_of_isName (tidy : Tidy tokens) (member : token ∈ tokens)
    (name : Span.isName token) : token.text ∉ ["\x7b", "\x7d"] := by
  have isWord : token.kind = .ident := by simpa [isIdent] using (Bool.and_eq_true_iff.mp name).1
  simpa [isBrace_eq_false, Token.is, isWord] using tidy.isBrace_of_isName member name

end Token

/-! ### Stretches -/

namespace Span

open Token

variable {depth : Nat} {tokens : List Token}

/-- A group is scanned to the bracket that closes it. -/
theorem scans_group (left : (group depth tokens).rest ≠ []) :
    Scans depth tokens (group depth tokens).rest := by
  fun_induction group depth tokens with
  | case1 => exact absurd rfl left
  | case2 depth token rest opens ih => exact .opens opens (ih left)
  | case3 => exact .done
  | case4 depth token rest _ closes inside ih =>
    obtain ⟨depth, rfl⟩ := Nat.exists_eq_add_one_of_ne_zero inside
    exact .closes closes (ih left)
  | case5 depth token rest noOpening noClosing ih => exact .plain noOpening noClosing (ih left)

/-- An initial value is scanned to the token that ends it. -/
theorem scans_initializer (left : (initializer depth tokens).rest ≠ []) :
    Scans depth tokens (initializer depth tokens).rest := by
  fun_induction initializer depth tokens with
  | case1 => exact absurd rfl left
  | case2 depth token rest ends =>
    obtain rfl := of_decide_eq_true (Bool.and_eq_true_iff.mp ends).1
    exact .done
  | case3 depth token rest _ opens ih => exact .opens opens (ih left)
  | case4 depth token rest goesOn _ closes ih =>
    cases depth with
    | zero => exact .stray closes (fun brace => goesOn (by simp [isAny, brace])) (ih left)
    | succ depth => exact .closes closes (ih left)
  | case5 depth token rest _ noOpening noClosing ih => exact .plain noOpening noClosing (ih left)

/-- A plain statement is scanned to its last token. -/
theorem scans_plainStatement {endsWithBlock : Bool}
    (closed : (plainStatement endsWithBlock depth tokens).closed) :
    Scans depth tokens (plainStatement endsWithBlock depth tokens).rest := by
  fun_induction plainStatement endsWithBlock depth tokens with
  | case1 => cases closed
  | case2 depth token rest ends =>
    obtain ⟨outside, semicolon⟩ := Bool.and_eq_true_iff.mp ends
    obtain rfl := of_decide_eq_true outside
    exact .plain (by simp [opens, isAny, is_eq semicolon])
      (by simp [closes, isAny, is_eq semicolon]) .done
  | case3 depth token rest _ opens ih => exact .opens opens (ih closed)
  | case4 => cases closed
  | case5 depth token rest _ _ closes _ ends =>
    simp only [Bool.and_eq_true, decide_eq_true_eq] at ends
    obtain rfl := ends.1.1.1
    exact .closes closes .done
  | case6 depth token rest _ _ closes inside _ ih =>
    obtain ⟨depth, rfl⟩ := Nat.exists_eq_add_one_of_ne_zero inside
    exact .closes closes (ih closed)
  | case7 depth token rest _ noOpening noClosing ih =>
    exact .plain noOpening noClosing (ih closed)

/-- No braces are opened in angles. -/
theorem not_is_of_mem_angles {token : Token} (member : token ∈ (angles depth tokens).taken) :
    ¬token.is "\x7b" := by
  have signs {sign : Token} {text : String} (is : sign.is text) (other : text ≠ "\x7b") :
      ¬sign.is "\x7b" := by simp [is_eq is, other]
  fun_induction angles depth tokens with
  | case1 => cases member
  | case2 depth first rest opens ih =>
    rcases List.mem_cons.mp member with rfl | later
    · exact signs opens (by decide)
    · exact ih later
  | case3 depth first rest _ closes =>
    obtain rfl := List.mem_singleton.mp member
    exact signs closes (by decide)
  | case4 depth first rest _ closes _ ih =>
    rcases List.mem_cons.mp member with rfl | later
    · exact signs closes (by decide)
    · exact ih later
  | case5 => cases member
  | case6 depth first rest _ _ goesOn ih =>
    rcases List.mem_cons.mp member with rfl | later
    · exact fun brace => goesOn (by simp [endsAngles, isAny, brace])
    · exact ih later

/-! Stretches that hold no braces at all. -/

/-- A stretch that stops at braces has none. -/
theorem plain_upTo {stop : Token → Bool} (stops : ∀ token, token.isBrace → stop token)
    (tokens : List Token) : ∀ token ∈ (upTo stop tokens).taken, token.isBrace = false := by
  fun_induction upTo stop tokens with
  | case1 => exact List.forall_mem_nil _
  | case2 => exact List.forall_mem_nil _
  | case3 token rest goesOn ih =>
    refine List.forall_mem_cons.mpr ⟨?_, ih⟩
    exact Bool.eq_false_iff.mpr fun brace => goesOn (stops token brace)

/-- Names behind dots have no braces. -/
theorem plain_dottedNames (tidy : Tidy tokens) :
    ∀ token ∈ (dottedNames tokens).taken, token.isBrace = false := by
  fun_induction dottedNames tokens with
  | case2 token name =>
    exact List.forall_mem_singleton.mpr (tidy.isBrace_of_isName List.mem_cons_self name)
  | case4 token point rest name is ih =>
    have later := tidy.suffix (List.suffix_append [token, point] rest)
    exact List.forall_mem_cons.mpr ⟨tidy.isBrace_of_isName List.mem_cons_self name,
      List.forall_mem_cons.mpr ⟨isBrace_of_is is (by decide), ih later⟩⟩
  | case5 token next rest name =>
    exact List.forall_mem_singleton.mpr (tidy.isBrace_of_isName List.mem_cons_self name)
  | _ => exact List.forall_mem_nil _

/-- Qualifiers have no braces. -/
theorem plain_qualifiers (tidy : Tidy tokens) :
    ∀ token ∈ (qualifiers tokens).taken, token.isBrace = false := by
  fun_induction qualifiers tokens with
  | case1 point word rest both ih =>
    obtain ⟨is, isIdent⟩ := Bool.and_eq_true_iff.mp both
    have later := tidy.suffix (List.suffix_append [point, word] rest)
    exact List.forall_mem_cons.mpr ⟨isBrace_of_is is (by decide), List.forall_mem_cons.mpr
      ⟨tidy.words word (List.mem_cons_of_mem _ List.mem_cons_self) isIdent, ih later⟩⟩
  | _ => exact List.forall_mem_nil _

/-- Marks of arrays have no braces. -/
theorem plain_arrayMarks : ∀ token ∈ (arrayMarks tokens).taken, token.isBrace = false := by
  fun_induction arrayMarks tokens with
  | case1 opening closing rest marks ih =>
    obtain ⟨opens, closes⟩ := Bool.and_eq_true_iff.mp marks
    exact List.forall_mem_cons.mpr ⟨isBrace_of_is opens (by decide),
      List.forall_mem_cons.mpr ⟨isBrace_of_is closes (by decide), ih⟩⟩
  | _ => exact List.forall_mem_nil _

/-- What closes angles next to their first sign holds no braces, if it is clear of those that
close. -/
theorem plain_angles (tidy : Tidy tokens) (opens : tokens.head?.any (·.is "<"))
    (closed : (angles 0 tokens).closed) :
    ∀ token ∈ (angles 0 tokens).taken, token.isBrace = false := fun token member =>
  isBrace_eq_false.mpr ⟨not_is_of_mem_angles member,
    tidy.angles tokens ((List.mem_tails _ _).mpr (List.suffix_refl _)) opens closed token member⟩

end Span

/-- The tokens of a text are tidy as far as their brackets are. -/
theorem tidy_tokenize {source : String} (nested : Token.uncrossed [] (tokenize source).1)
    (clear : Token.AnglesClear (tokenize source).1) : Token.Tidy (tokenize source).1 where
  uncrossed := ⟨[], nested⟩
  angles := clear
  words := by
    intro token member isWord
    obtain ⟨c, first, starts⟩ := exists_startsWord member isWord
    have other {text : String} (same : token.is text) : text.toList.head? = some c := by
      rw [← Token.text_eq_of_is same]
      exact first
    refine Token.isBrace_eq_false.mpr ⟨fun same => ?_, fun same => ?_⟩
    · cases (other same : some _ = _)
      exact absurd starts (by decide +kernel)
    · cases (other same : some _ = _)
      exact absurd starts (by decide +kernel)

end Transcode
