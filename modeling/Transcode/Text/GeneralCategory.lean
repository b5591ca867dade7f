import Transcode.Text.CodePoints

/-!
# General categories

Every code point has one of thirty general categories. The table tells where the category changes;
in a run marked `case`, capital and small letters take turns.
-/

namespace Transcode.Text

/-- A general category of code points. -/
inductive GeneralCategory where
  | uppercaseLetter
  | lowercaseLetter
  | titlecaseLetter
  | modifierLetter
  | otherLetter
  | nonspacingMark
  | spacingMark
  | enclosingMark
  | decimalNumber
  | letterNumber
  | otherNumber
  | connectorPunctuation
  | dashPunctuation
  | openPunctuation
  | closePunctuation
  | initialPunctuation
  | finalPunctuation
  | otherPunctuation
  | mathSymbol
  | currencySymbol
  | modifierSymbol
  | otherSymbol
  | spaceSeparator
  | lineSeparator
  | paragraphSeparator
  | control
  | format
  | surrogate
  | privateUse
  | unassigned
  deriving DecidableEq, Repr

namespace GeneralCategory

/-- The two letters that stand for a category. -/
def code : GeneralCategory → String
  | .uppercaseLetter => "lu"
  | .lowercaseLetter => "ll"
  | .titlecaseLetter => "lt"
  | .modifierLetter => "lm"
  | .otherLetter => "lo"
  | .nonspacingMark => "mn"
  | .spacingMark => "mc"
  | .enclosingMark => "me"
  | .decimalNumber => "nd"
  | .letterNumber => "nl"
  | .otherNumber => "no"
  | .connectorPunctuation => "pc"
  | .dashPunctuation => "pd"
  | .openPunctuation => "ps"
  | .closePunctuation => "pe"
  | .initialPunctuation => "pi"
  | .finalPunctuation => "pf"
  | .otherPunctuation => "po"
  | .mathSymbol => "sm"
  | .currencySymbol => "sc"
  | .modifierSymbol => "sk"
  | .otherSymbol => "so"
  | .spaceSeparator => "zs"
  | .lineSeparator => "zl"
  | .paragraphSeparator => "zp"
  | .control => "cc"
  | .format => "cf"
  | .surrogate => "cs"
  | .privateUse => "co"
  | .unassigned => "cn"

/-- A run in which capital and small letters take turns, written out. -/
def alternate : Nat → Nat → List (Nat × String)
  | _, 0 => []
  | first, 1 => [(first, "lu")]
  | first, count + 2 => (first, "lu") :: (first + 1, "ll") :: alternate (first + 2) count

/-- The table with every run of alternating case written out. -/
def expandCase : List (Nat × String) → List (Nat × String)
  | [] => []
  | [run] => [run]
  | (first, label) :: (next, other) :: rest =>
    if label = "case" then alternate first (next - first) ++ expandCase ((next, other) :: rest)
    else (first, label) :: expandCase ((next, other) :: rest)

/-- Where the general category changes. -/
def table : List (Nat × String) := expandCase <| CodePoints.readLabels <| " ".intercalate
  ["0cc 20zs 21po 24sc 25po 28ps 29pe 2Apo 2Bsm 2Cpo 2Dpd 2Epo 30nd 3Apo 3Csm 3Fpo 41lu 5Bps 5Cpo",
   "5Dpe 5Esk 5Fpc 60sk 61ll 7Bps 7Csm 7Dpe 7Esm 7Fcc A0zs A1po A2sc A6so A7po A8sk A9so AAlo",
   "ABpi ACsm ADcf AEso AFsk B0so B1sm B2no B4sk B5ll B6po B8sk B9no BAlo BBpf BCno BFpo C0lu",
   "D7sm D8lu DFll F7sm F8ll 100case 136lu 137ll 139case 147lu 148ll 14Acase 178lu 17All 17Blu",
   "17Cll 17Dlu 17Ell 181lu 183ll 184lu 185ll 186lu 188ll 189lu 18Cll 18Elu 192ll 193lu 195ll",
   "196lu 199ll 19Clu 19Ell 19Flu 1A1ll 1A2case 1A6lu 1A8ll 1A9lu 1AAll 1AClu 1ADll 1AElu 1B0ll",
   "1B1lu 1B4ll 1B5lu 1B6ll 1B7lu 1B9ll 1BBlo 1BClu 1BDll 1C0lo 1C4lu 1C5lt 1C6ll 1C7lu 1C8lt",
   "1C9ll 1CAlu 1CBlt 1CCll 1CDcase 1DBlu 1DCll 1DEcase 1EElu 1EFll 1F1lu 1F2lt 1F3ll 1F4lu 1F5ll",
   "1F6lu 1F9ll 1FAcase 232lu 233ll 23Alu 23Cll 23Dlu 23Fll 241lu 242ll 243lu 247ll 248case 24Elu",
   "24Fll 294lo 296ll 2B0lm 2C2sk 2C6lm 2D2sk 2E0lm 2E5sk 2EClm 2EDsk 2EElm 2EFsk 300mn 370case",
   "374lm 375sk 376lu 377ll 378cn 37Alm 37Bll 37Epo 37Flu 380cn 384sk 386lu 387po 388lu 38Bcn",
   "38Clu 38Dcn 38Elu 390ll 391lu 3A2cn 3A3lu 3ACll 3CFlu 3D0ll 3D2lu 3D5ll 3D8case 3EElu 3EFll",
   "3F4lu 3F5ll 3F6sm 3F7lu 3F8ll 3F9lu 3FBll 3FDlu 430ll 460case 482so 483mn 488me 48Acase 4C0lu",
   "4C2ll 4C3case 4CDlu 4CEll 4D0case 530cn 531lu 557cn 559lm 55Apo 560ll 589po 58Apd 58Bcn 58Dso",
   "58Fsc 590cn 591mn 5BEpd 5BFmn 5C0po 5C1mn 5C3po 5C4mn 5C6po 5C7mn 5C8cn 5D0lo 5EBcn 5EFlo",
   "5F3po 5F5cn 600cf 606sm 609po 60Bsc 60Cpo 60Eso 610mn 61Bpo 61Ccf 61Dpo 620lo 640lm 641lo",
   "64Bmn 660nd 66Apo 66Elo 670mn 671lo 6D4po 6D5lo 6D6mn 6DDcf 6DEso 6DFmn 6E5lm 6E7mn 6E9so",
   "6EAmn 6EElo 6F0nd 6FAlo 6FDso 6FFlo 700po 70Ecn 70Fcf 710lo 711mn 712lo 730mn 74Bcn 74Dlo",
   "7A6mn 7B1lo 7B2cn 7C0nd 7CAlo 7EBmn 7F4lm 7F6so 7F7po 7FAlm 7FBcn 7FDmn 7FEsc 800lo 816mn",
   "81Alm 81Bmn 824lm 825mn 828lm 829mn 82Ecn 830po 83Fcn 840lo 859mn 85Ccn 85Epo 85Fcn 860lo",
   "86Bcn 870lo 888sk 889lo 890cf 892cn 897mn 8A0lo 8C9lm 8CAmn 8E2cf 8E3mn 903mc 904lo 93Amn",
   "93Bmc 93Cmn 93Dlo 93Emc 941mn 949mc 94Dmn 94Emc 950lo 951mn 958lo 962mn 964po 966nd 970po",
   "971lm 972lo 981mn 982mc 984cn 985lo 98Dcn 98Flo 991cn 993lo 9A9cn 9AAlo 9B1cn 9B2lo 9B3cn",
   "9B6lo 9BAcn 9BCmn 9BDlo 9BEmc 9C1mn 9C5cn 9C7mc 9C9cn 9CBmc 9CDmn 9CElo 9CFcn 9D7mc 9D8cn",
   "9DClo 9DEcn 9DFlo 9E2mn 9E4cn 9E6nd 9F0lo 9F2sc 9F4no 9FAso 9FBsc 9FClo 9FDpo 9FEmn 9FFcn",
   "A01mn A03mc A04cn A05lo A0Bcn A0Flo A11cn A13lo A29cn A2Alo A31cn A32lo A34cn A35lo A37cn",
   "A38lo A3Acn A3Cmn A3Dcn A3Emc A41mn A43cn A47mn A49cn A4Bmn A4Ecn A51mn A52cn A59lo A5Dcn",
   "A5Elo A5Fcn A66nd A70mn A72lo A75mn A76po A77cn A81mn A83mc A84cn A85lo A8Ecn A8Flo A92cn",
   "A93lo AA9cn AAAlo AB1cn AB2lo AB4cn AB5lo ABAcn ABCmn ABDlo ABEmc AC1mn AC6cn AC7mn AC9mc",
   "ACAcn ACBmc ACDmn ACEcn AD0lo AD1cn AE0lo AE2mn AE4cn AE6nd AF0po AF1sc AF2cn AF9lo AFAmn",
   "B00cn B01mn B02mc B04cn B05lo B0Dcn B0Flo B11cn B13lo B29cn B2Alo B31cn B32lo B34cn B35lo",
   "B3Acn B3Cmn B3Dlo B3Emc B3Fmn B40mc B41mn B45cn B47mc B49cn B4Bmc B4Dmn B4Ecn B55mn B57mc",
   "B58cn B5Clo B5Ecn B5Flo B62mn B64cn B66nd B70so B71lo B72no B78cn B82mn B83lo B84cn B85lo",
   "B8Bcn B8Elo B91cn B92lo B96cn B99lo B9Bcn B9Clo B9Dcn B9Elo BA0cn BA3lo BA5cn BA8lo BABcn",
   "BAElo BBAcn BBEmc BC0mn BC1mc BC3cn BC6mc BC9cn BCAmc BCDmn BCEcn BD0lo BD1cn BD7mc BD8cn",
   "BE6nd BF0no BF3so BF9sc BFAso BFBcn C00mn C01mc C04mn C05lo C0Dcn C0Elo C11cn C12lo C29cn",
   "C2Alo C3Acn C3Cmn C3Dlo C3Emn C41mc C45cn C46mn C49cn C4Amn C4Ecn C55mn C57cn C58lo C5Bcn",
   "C5Clo C5Ecn C60lo C62mn C64cn C66nd C70cn C77po C78no C7Fso C80lo C81mn C82mc C84po C85lo",
   "C8Dcn C8Elo C91cn C92lo CA9cn CAAlo CB4cn CB5lo CBAcn CBCmn CBDlo CBEmc CBFmn CC0mc CC5cn",
   "CC6mn CC7mc CC9cn CCAmc CCCmn CCEcn CD5mc CD7cn CDClo CDFcn CE0lo CE2mn CE4cn CE6nd CF0cn",
   "CF1lo CF3mc CF4cn D00mn D02mc D04lo D0Dcn D0Elo D11cn D12lo D3Bmn D3Dlo D3Emc D41mn D45cn",
   "D46mc D49cn D4Amc D4Dmn D4Elo D4Fso D50cn D54lo D57mc D58no D5Flo D62mn D64cn D66nd D70no",
   "D79so D7Alo D80cn D81mn D82mc D84cn D85lo D97cn D9Alo DB2cn DB3lo DBCcn DBDlo DBEcn DC0lo",
   "DC7cn DCAmn DCBcn DCFmc DD2mn DD5cn DD6mn DD7cn DD8mc DE0cn DE6nd DF0cn DF2mc DF4po DF5cn",
   "E01lo E31mn E32lo E34mn E3Bcn E3Fsc E40lo E46lm E47mn E4Fpo E50nd E5Apo E5Ccn E81lo E83cn",
   "E84lo E85cn E86lo E8Bcn E8Clo EA4cn EA5lo EA6cn EA7lo EB1mn EB2lo EB4mn EBDlo EBEcn EC0lo",
   "EC5cn EC6lm EC7cn EC8mn ECFcn ED0nd EDAcn EDClo EE0cn F00lo F01so F04po F13so F14po F15so",
   "F18mn F1Aso F20nd F2Ano F34so F35mn F36so F37mn F38so F39mn F3Aps F3Bpe F3Cps F3Dpe F3Emc",
   "F40lo F48cn F49lo F6Dcn F71mn F7Fmc F80mn F85po F86mn F88lo F8Dmn F98cn F99mn FBDcn FBEso",
   "FC6mn FC7so FCDcn FCEso FD0po FD5so FD9po FDBcn 1000lo 102Bmc 102Dmn 1031mc 1032mn 1038mc",
   "1039mn 103Bmc 103Dmn 103Flo 1040nd 104Apo 1050lo 1056mc 1058mn 105Alo 105Emn 1061lo 1062mc",
   "1065lo 1067mc 106Elo 1071mn 1075lo 1082mn 1083mc 1085mn 1087mc 108Dmn 108Elo 108Fmc 1090nd",
   "109Amc 109Dmn 109Eso 10A0lu 10C6cn 10C7lu 10C8cn 10CDlu 10CEcn 10D0ll 10FBpo 10FClm 10FDll",
   "1100lo 1249cn 124Alo 124Ecn 1250lo 1257cn 1258lo 1259cn 125Alo 125Ecn 1260lo 1289cn 128Alo",
   "128Ecn 1290lo 12B1cn 12B2lo 12B6cn 12B8lo 12BFcn 12C0lo 12C1cn 12C2lo 12C6cn 12C8lo 12D7cn",
   "12D8lo 1311cn 1312lo 1316cn 1318lo 135Bcn 135Dmn 1360po 1369no 137Dcn 1380lo 1390so 139Acn",
   "13A0lu 13F6cn 13F8ll 13FEcn 1400pd 1401lo 166Dso 166Epo 166Flo 1680zs 1681lo 169Bps 169Cpe",
   "169Dcn 16A0lo 16EBpo 16EEnl 16F1lo 16F9cn 1700lo 1712mn 1715mc 1716cn 171Flo 1732mn 1734mc",
   "1735po 1737cn 1740lo 1752mn 1754cn 1760lo 176Dcn 176Elo 1771cn 1772mn 1774cn 1780lo 17B4mn",
   "17B6mc 17B7mn 17BEmc 17C6mn 17C7mc 17C9mn 17D4po 17D7lm 17D8po 17DBsc 17DClo 17DDmn 17DEcn",
   "17E0nd 17EAcn 17F0no 17FAcn 1800po 1806pd 1807po 180Bmn 180Ecf 180Fmn 1810nd 181Acn 1820lo",
   "1843lm 1844lo 1879cn 1880lo 1885mn 1887lo 18A9mn 18AAlo 18ABcn 18B0lo 18F6cn 1900lo 191Fcn",
   "1920mn 1923mc 1927mn 1929mc 192Ccn 1930mc 1932mn 1933mc 1939mn 193Ccn 1940so 1941cn 1944po",
   "1946nd 1950lo 196Ecn 1970lo 1975cn 1980lo 19ACcn 19B0lo 19CAcn 19D0nd 19DAno 19DBcn 19DEso",
   "1A00lo 1A17mn 1A19mc 1A1Bmn 1A1Ccn 1A1Epo 1A20lo 1A55mc 1A56mn 1A57mc 1A58mn 1A5Fcn 1A60mn",
   "1A61mc 1A62mn 1A63mc 1A65mn 1A6Dmc 1A73mn 1A7Dcn 1A7Fmn 1A80nd 1A8Acn 1A90nd 1A9Acn 1AA0po",
   "1AA7lm 1AA8po 1AAEcn 1AB0mn 1ABEme 1ABFmn 1ADEcn 1AE0mn 1AECcn 1B00mn 1B04mc 1B05lo 1B34mn",
   "1B35mc 1B36mn 1B3Bmc 1B3Cmn 1B3Dmc 1B42mn 1B43mc 1B45lo 1B4Dcn 1B4Epo 1B50nd 1B5Apo 1B61so",
   "1B6Bmn 1B74so 1B7Dpo 1B80mn 1B82mc 1B83lo 1BA1mc 1BA2mn 1BA6mc 1BA8mn 1BAAmc 1BABmn 1BAElo",
   "1BB0nd 1BBAlo 1BE6mn 1BE7mc 1BE8mn 1BEAmc 1BEDmn 1BEEmc 1BEFmn 1BF2mc 1BF4cn 1BFCpo 1C00lo",
   "1C24mc 1C2Cmn 1C34mc 1C36mn 1C38cn 1C3Bpo 1C40nd 1C4Acn 1C4Dlo 1C50nd 1C5Alo 1C78lm 1C7Epo",
   "1C80ll 1C89lu 1C8All 1C8Bcn 1C90lu 1CBBcn 1CBDlu 1CC0po 1CC8cn 1CD0mn 1CD3po 1CD4mn 1CE1mc",
   "1CE2mn 1CE9lo 1CEDmn 1CEElo 1CF4mn 1CF5lo 1CF7mc 1CF8mn 1CFAlo 1CFBcn 1D00ll 1D2Clm 1D6Bll",
   "1D78lm 1D79ll 1D9Blm 1DC0mn 1E00case 1E94lu 1E95ll 1E9Ecase 1EFElu 1EFFll 1F08lu 1F10ll",
   "1F16cn 1F18lu 1F1Ecn 1F20ll 1F28lu 1F30ll 1F38lu 1F40ll 1F46cn 1F48lu 1F4Ecn 1F50ll 1F58cn",
   "1F59lu 1F5Acn 1F5Blu 1F5Ccn 1F5Dlu 1F5Ecn 1F5Flu 1F60ll 1F68lu 1F70ll 1F7Ecn 1F80ll 1F88lt",
   "1F90ll 1F98lt 1FA0ll 1FA8lt 1FB0ll 1FB5cn 1FB6ll 1FB8lu 1FBClt 1FBDsk 1FBEll 1FBFsk 1FC2ll",
   "1FC5cn 1FC6ll 1FC8lu 1FCClt 1FCDsk 1FD0ll 1FD4cn 1FD6ll 1FD8lu 1FDCcn 1FDDsk 1FE0ll 1FE8lu",
   "1FEDsk 1FF0cn 1FF2ll 1FF5cn 1FF6ll 1FF8lu 1FFClt 1FFDsk 1FFFcn 2000zs 200Bcf 2010pd 2016po",
   "2018pi 2019pf 201Aps 201Bpi 201Dpf 201Eps 201Fpi 2020po 2028zl 2029zp 202Acf 202Fzs 2030po",
   "2039pi 203Apf 203Bpo 203Fpc 2041po 2044sm 2045ps 2046pe 2047po 2052sm 2053po 2054pc 2055po",
   "205Fzs 2060cf 2065cn 2066cf 2070no 2071lm 2072cn 2074no 207Asm 207Dps 207Epe 207Flm 2080no",
   "208Asm 208Dps 208Epe 208Fcn 2090lm 209Dcn 20A0sc 20C2cn 20D0mn 20DDme 20E1mn 20E2me 20E5mn",
   "20F1cn 2100so 2102lu 2103so 2107lu 2108so 210All 210Blu 210Ell 2110lu 2113ll 2114so 2115lu",
   "2116so 2118sm 2119lu 211Eso 2124lu 2125so 2126lu 2127so 2128lu 2129so 212Alu 212Eso 212Fll",
   "2130lu 2134ll 2135lo 2139ll 213Aso 213Cll 213Elu 2140sm 2145lu 2146ll 214Aso 214Bsm 214Cso",
   "214Ell 214Fso 2150no 2160nl 2183lu 2184ll 2185nl 2189no 218Aso 218Ccn 2190sm 2195so 219Asm",
   "219Cso 21A0sm 21A1so 21A3sm 21A4so 21A6sm 21A7so 21AEsm 21AFso 21CEsm 21D0so 21D2sm 21D3so",
   "21D4sm 21D5so 21F4sm 2300so 2308ps 2309pe 230Aps 230Bpe 230Cso 2320sm 2322so 2329ps 232Ape",
   "232Bso 237Csm 237Dso 239Bsm 23B4so 23DCsm 23E2so 242Acn 2440so 244Bcn 2460no 249Cso 24EAno",
   "2500so 25B7sm 25B8so 25C1sm 25C2so 25F8sm 2600so 266Fsm 2670so 2768ps 2769pe 276Aps 276Bpe",
   "276Cps 276Dpe 276Eps 276Fpe 2770ps 2771pe 2772ps 2773pe 2774ps 2775pe 2776no 2794so 27C0sm",
   "27C5ps 27C6pe 27C7sm 27E6ps 27E7pe 27E8ps 27E9pe 27EAps 27EBpe 27ECps 27EDpe 27EEps 27EFpe",
   "27F0sm 2800so 2900sm 2983ps 2984pe 2985ps 2986pe 2987ps 2988pe 2989ps 298Ape 298Bps 298Cpe",
   "298Dps 298Epe 298Fps 2990pe 2991ps 2992pe 2993ps 2994pe 2995ps 2996pe 2997ps 2998pe 2999sm",
   "29D8ps 29D9pe 29DAps 29DBpe 29DCsm 29FCps 29FDpe 29FEsm 2B00so 2B30sm 2B45so 2B47sm 2B4Dso",
   "2B74cn 2B76so 2C00lu 2C30ll 2C60lu 2C61ll 2C62lu 2C65ll 2C67case 2C6Dlu 2C71ll 2C72lu 2C73ll",
   "2C75lu 2C76ll 2C7Clm 2C7Elu 2C81ll 2C82case 2CE2lu 2CE3ll 2CE5so 2CEBcase 2CEFmn 2CF2lu",
   "2CF3ll 2CF4cn 2CF9po 2CFDno 2CFEpo 2D00ll 2D26cn 2D27ll 2D28cn 2D2Dll 2D2Ecn 2D30lo 2D68cn",
   "2D6Flm 2D70po 2D71cn 2D7Fmn 2D80lo 2D97cn 2DA0lo 2DA7cn 2DA8lo 2DAFcn 2DB0lo 2DB7cn 2DB8lo",
   "2DBFcn 2DC0lo 2DC7cn 2DC8lo 2DCFcn 2DD0lo 2DD7cn 2DD8lo 2DDFcn 2DE0mn 2E00po 2E02pi 2E03pf",
   "2E04pi 2E05pf 2E06po 2E09pi 2E0Apf 2E0Bpo 2E0Cpi 2E0Dpf 2E0Epo 2E17pd 2E18po 2E1Apd 2E1Bpo",
   "2E1Cpi 2E1Dpf 2E1Epo 2E20pi 2E21pf 2E22ps 2E23pe 2E24ps 2E25pe 2E26ps 2E27pe 2E28ps 2E29pe",
   "2E2Apo 2E2Flm 2E30po 2E3Apd 2E3Cpo 2E40pd 2E41po 2E42ps 2E43po 2E50so 2E52po 2E55ps 2E56pe",
   "2E57ps 2E58pe 2E59ps 2E5Ape 2E5Bps 2E5Cpe 2E5Dpd 2E5Ecn 2E80so 2E9Acn 2E9Bso 2EF4cn 2F00so",
   "2FD6cn 2FF0so 3000zs 3001po 3004so 3005lm 3006lo 3007nl 3008ps 3009pe 300Aps 300Bpe 300Cps",
   "300Dpe 300Eps 300Fpe 3010ps 3011pe 3012so 3014ps 3015pe 3016ps 3017pe 3018ps 3019pe 301Aps",
   "301Bpe 301Cpd 301Dps 301Epe 3020so 3021nl 302Amn 302Emc 3030pd 3031lm 3036so 3038nl 303Blm",
   "303Clo 303Dpo 303Eso 3040cn 3041lo 3097cn 3099mn 309Bsk 309Dlm 309Flo 30A0pd 30A1lo 30FBpo",
   "30FClm 30FFlo 3100cn 3105lo 3130cn 3131lo 318Fcn 3190so 3192no 3196so 31A0lo 31C0so 31E6cn",
   "31EFso 31F0lo 3200so 321Fcn 3220no 322Aso 3248no 3250so 3251no 3260so 3280no 328Aso 32B1no",
   "32C0so 3400lo 4DC0so 4E00lo A015lm A016lo A48Dcn A490so A4C7cn A4D0lo A4F8lm A4FEpo A500lo",
   "A60Clm A60Dpo A610lo A620nd A62Alo A62Ccn A640case A66Elo A66Fmn A670me A673po A674mn A67Epo",
   "A67Flm A680case A69Clm A69Emn A6A0lo A6E6nl A6F0mn A6F2po A6F8cn A700sk A717lm A720sk",
   "A722case A72Elu A72Fll A732case A770lm A771ll A779case A77Dlu A77Fll A780case A788lm A789sk",
   "A78Bcase A78Flo A790lu A791ll A792lu A793ll A796case A7AAlu A7AFll A7B0lu A7B5ll A7B6case",
   "A7C4lu A7C8ll A7C9lu A7CAll A7CBlu A7CDll A7CEcase A7DClu A7DDcn A7F1lm A7F5lu A7F6ll A7F7lo",
   "A7F8lm A7FAll A7FBlo A802mn A803lo A806mn A807lo A80Bmn A80Clo A823mc A825mn A827mc A828so",
   "A82Cmn A82Dcn A830no A836so A838sc A839so A83Acn A840lo A874po A878cn A880mc A882lo A8B4mc",
   "A8C4mn A8C6cn A8CEpo A8D0nd A8DAcn A8E0mn A8F2lo A8F8po A8FBlo A8FCpo A8FDlo A8FFmn A900nd",
   "A90Alo A926mn A92Epo A930lo A947mn A952mc A954cn A95Fpo A960lo A97Dcn A980mn A983mc A984lo",
   "A9B3mn A9B4mc A9B6mn A9BAmc A9BCmn A9BEmc A9C1po A9CEcn A9CFlm A9D0nd A9DAcn A9DEpo A9E0lo",
   "A9E5mn A9E6lm A9E7lo A9F0nd A9FAlo A9FFcn AA00lo AA29mn AA2Fmc AA31mn AA33mc AA35mn AA37cn",
   "AA40lo AA43mn AA44lo AA4Cmn AA4Dmc AA4Ecn AA50nd AA5Acn AA5Cpo AA60lo AA70lm AA71lo AA77so",
   "AA7Alo AA7Bmc AA7Cmn AA7Dmc AA7Elo AAB0mn AAB1lo AAB2mn AAB5lo AAB7mn AAB9lo AABEmn AAC0lo",
   "AAC1mn AAC2lo AAC3cn AADBlo AADDlm AADEpo AAE0lo AAEBmc AAECmn AAEEmc AAF0po AAF2lo AAF3lm",
   "AAF5mc AAF6mn AAF7cn AB01lo AB07cn AB09lo AB0Fcn AB11lo AB17cn AB20lo AB27cn AB28lo AB2Fcn",
   "AB30ll AB5Bsk AB5Clm AB60ll AB69lm AB6Ask AB6Ccn AB70ll ABC0lo ABE3mc ABE5mn ABE6mc ABE8mn",
   "ABE9mc ABEBpo ABECmc ABEDmn ABEEcn ABF0nd ABFAcn AC00lo D7A4cn D7B0lo D7C7cn D7CBlo D7FCcn",
   "D800cs E000co F900lo FA6Ecn FA70lo FADAcn FB00ll FB07cn FB13ll FB18cn FB1Dlo FB1Emn FB1Flo",
   "FB29sm FB2Alo FB37cn FB38lo FB3Dcn FB3Elo FB3Fcn FB40lo FB42cn FB43lo FB45cn FB46lo FBB2sk",
   "FBC3so FBD3lo FD3Epe FD3Fps FD40so FD50lo FD90so FD92lo FDC8so FDD0cn FDF0lo FDFCsc FDFDso",
   "FE00mn FE10po FE17ps FE18pe FE19po FE1Acn FE20mn FE30po FE31pd FE33pc FE35ps FE36pe FE37ps",
   "FE38pe FE39ps FE3Ape FE3Bps FE3Cpe FE3Dps FE3Epe FE3Fps FE40pe FE41ps FE42pe FE43ps FE44pe",
   "FE45po FE47ps FE48pe FE49po FE4Dpc FE50po FE53cn FE54po FE58pd FE59ps FE5Ape FE5Bps FE5Cpe",
   "FE5Dps FE5Epe FE5Fpo FE62sm FE63pd FE64sm FE67cn FE68po FE69sc FE6Apo FE6Ccn FE70lo FE75cn",
   "FE76lo FEFDcn FEFFcf FF00cn FF01po FF04sc FF05po FF08ps FF09pe FF0Apo FF0Bsm FF0Cpo FF0Dpd",
   "FF0Epo FF10nd FF1Apo FF1Csm FF1Fpo FF21lu FF3Bps FF3Cpo FF3Dpe FF3Esk FF3Fpc FF40sk FF41ll",
   "FF5Bps FF5Csm FF5Dpe FF5Esm FF5Fps FF60pe FF61po FF62ps FF63pe FF64po FF66lo FF70lm FF71lo",
   "FF9Elm FFA0lo FFBFcn FFC2lo FFC8cn FFCAlo FFD0cn FFD2lo FFD8cn FFDAlo FFDDcn FFE0sc FFE2sm",
   "FFE3sk FFE4so FFE5sc FFE7cn FFE8so FFE9sm FFEDso FFEFcn FFF9cf FFFCso FFFEcn 10000lo 1000Ccn",
   "1000Dlo 10027cn 10028lo 1003Bcn 1003Clo 1003Ecn 1003Flo 1004Ecn 10050lo 1005Ecn 10080lo",
   "100FBcn 10100po 10103cn 10107no 10134cn 10137so 10140nl 10175no 10179so 1018Ano 1018Cso",
   "1018Fcn 10190so 1019Dcn 101A0so 101A1cn 101D0so 101FDmn 101FEcn 10280lo 1029Dcn 102A0lo",
   "102D1cn 102E0mn 102E1no 102FCcn 10300lo 10320no 10324cn 1032Dlo 10341nl 10342lo 1034Anl",
   "1034Bcn 10350lo 10376mn 1037Bcn 10380lo 1039Ecn 1039Fpo 103A0lo 103C4cn 103C8lo 103D0po",
   "103D1nl 103D6cn 10400lu 10428ll 10450lo 1049Ecn 104A0nd 104AAcn 104B0lu 104D4cn 104D8ll",
   "104FCcn 10500lo 10528cn 10530lo 10564cn 1056Fpo 10570lu 1057Bcn 1057Clu 1058Bcn 1058Clu",
   "10593cn 10594lu 10596cn 10597ll 105A2cn 105A3ll 105B2cn 105B3ll 105BAcn 105BBll 105BDcn",
   "105C0lo 105F4cn 10600lo 10737cn 10740lo 10756cn 10760lo 10768cn 10780lm 10786cn 10787lm",
   "107B1cn 107B2lm 107BBcn 10800lo 10806cn 10808lo 10809cn 1080Alo 10836cn 10837lo 10839cn",
   "1083Clo 1083Dcn 1083Flo 10856cn 10857po 10858no 10860lo 10877so 10879no 10880lo 1089Fcn",
   "108A7no 108B0cn 108E0lo 108F3cn 108F4lo 108F6cn 108FBno 10900lo 10916no 1091Ccn 1091Fpo",
   "10920lo 1093Acn 1093Fpo 10940lo 1095Acn 10980lo 109B8cn 109BCno 109BElo 109C0no 109D0cn",
   "109D2no 10A00lo 10A01mn 10A04cn 10A05mn 10A07cn 10A0Cmn 10A10lo 10A14cn 10A15lo 10A18cn",
   "10A19lo 10A36cn 10A38mn 10A3Bcn 10A3Fmn 10A40no 10A49cn 10A50po 10A59cn 10A60lo 10A7Dno",
   "10A7Fpo 10A80lo 10A9Dno 10AA0cn 10AC0lo 10AC8so 10AC9lo 10AE5mn 10AE7cn 10AEBno 10AF0po",
   "10AF7cn 10B00lo 10B36cn 10B39po 10B40lo 10B56cn 10B58no 10B60lo 10B73cn 10B78no 10B80lo",
   "10B92cn 10B99po 10B9Dcn 10BA9no 10BB0cn 10C00lo 10C49cn 10C80lu 10CB3cn 10CC0ll 10CF3cn",
   "10CFAno 10D00lo 10D24mn 10D28cn 10D30nd 10D3Acn 10D40nd 10D4Alo 10D4Elm 10D4Flo 10D50lu",
   "10D66cn 10D69mn 10D6Epd 10D6Flm 10D70ll 10D86cn 10D8Esm 10D90cn 10E60no 10E7Fcn 10E80lo",
   "10EAAcn 10EABmn 10EADpd 10EAEcn 10EB0lo 10EB2cn 10EC2lo 10EC5lm 10EC6lo 10EC8cn 10ED0po",
   "10ED1so 10ED9cn 10EFAmn 10F00lo 10F1Dno 10F27lo 10F28cn 10F30lo 10F46mn 10F51no 10F55po",
   "10F5Acn 10F70lo 10F82mn 10F86po 10F8Acn 10FB0lo 10FC5no 10FCCcn 10FE0lo 10FF7cn 11000mc",
   "11001mn 11002mc 11003lo 11038mn 11047po 1104Ecn 11052no 11066nd 11070mn 11071lo 11073mn",
   "11075lo 11076cn 1107Fmn 11082mc 11083lo 110B0mc 110B3mn 110B7mc 110B9mn 110BBpo 110BDcf",
   "110BEpo 110C2mn 110C3cn 110CDcf 110CEcn 110D0lo 110E9cn 110F0nd 110FAcn 11100mn 11103lo",
   "11127mn 1112Cmc 1112Dmn 11135cn 11136nd 11140po 11144lo 11145mc 11147lo 11148cn 11150lo",
   "11173mn 11174po 11176lo 11177cn 11180mn 11182mc 11183lo 111B3mc 111B6mn 111BFmc 111C1lo",
   "111C5po 111C9mn 111CDpo 111CEmc 111CFmn 111D0nd 111DAlo 111DBpo 111DClo 111DDpo 111E0cn",
   "111E1no 111F5cn 11200lo 11212cn 11213lo 1122Cmc 1122Fmn 11232mc 11234mn 11235mc 11236mn",
   "11238po 1123Emn 1123Flo 11241mn 11242cn 11280lo 11287cn 11288lo 11289cn 1128Alo 1128Ecn",
   "1128Flo 1129Ecn 1129Flo 112A9po 112AAcn 112B0lo 112DFmn 112E0mc 112E3mn 112EBcn 112F0nd",
   "112FAcn 11300mn 11302mc 11304cn 11305lo 1130Dcn 1130Flo 11311cn 11313lo 11329cn 1132Alo",
   "11331cn 11332lo 11334cn 11335lo 1133Acn 1133Bmn 1133Dlo 1133Emc 11340mn 11341mc 11345cn",
   "11347mc 11349cn 1134Bmc 1134Ecn 11350lo 11351cn 11357mc 11358cn 1135Dlo 11362mc 11364cn",
   "11366mn 1136Dcn 11370mn 11375cn 11380lo 1138Acn 1138Blo 1138Ccn 1138Elo 1138Fcn 11390lo",
   "113B6cn 113B7lo 113B8mc 113BBmn 113C1cn 113C2mc 113C3cn 113C5mc 113C6cn 113C7mc 113CBcn",
   "113CCmc 113CEmn 113CFmc 113D0mn 113D1lo 113D2mn 113D3lo 113D4po 113D6cn 113D7po 113D9cn",
   "113E1mn 113E3cn 11400lo 11435mc 11438mn 11440mc 11442mn 11445mc 11446mn 11447lo 1144Bpo",
   "11450nd 1145Apo 1145Ccn 1145Dpo 1145Emn 1145Flo 11462cn 11480lo 114B0mc 114B3mn 114B9mc",
   "114BAmn 114BBmc 114BFmn 114C1mc 114C2mn 114C4lo 114C6po 114C7lo 114C8cn 114D0nd 114DAcn",
   "11580lo 115AFmc 115B2mn 115B6cn 115B8mc 115BCmn 115BEmc 115BFmn 115C1po 115D8lo 115DCmn",
   "115DEcn 11600lo 11630mc 11633mn 1163Bmc 1163Dmn 1163Emc 1163Fmn 11641po 11644lo 11645cn",
   "11650nd 1165Acn 11660po 1166Dcn 11680lo 116ABmn 116ACmc 116ADmn 116AEmc 116B0mn 116B6mc",
   "116B7mn 116B8lo 116B9po 116BAcn 116C0nd 116CAcn 116D0nd 116E4cn 11700lo 1171Bcn 1171Dmn",
   "1171Emc 1171Fmn 11720mc 11722mn 11726mc 11727mn 1172Ccn 11730nd 1173Ano 1173Cpo 1173Fso",
   "11740lo 11747cn 11800lo 1182Cmc 1182Fmn 11838mc 11839mn 1183Bpo 1183Ccn 118A0lu 118C0ll",
   "118E0nd 118EAno 118F3cn 118FFlo 11907cn 11909lo 1190Acn 1190Clo 11914cn 11915lo 11917cn",
   "11918lo 11930mc 11936cn 11937mc 11939cn 1193Bmn 1193Dmc 1193Emn 1193Flo 11940mc 11941lo",
   "11942mc 11943mn 11944po 11947cn 11950nd 1195Acn 119A0lo 119A8cn 119AAlo 119D1mc 119D4mn",
   "119D8cn 119DAmn 119DCmc 119E0mn 119E1lo 119E2po 119E3lo 119E4mc 119E5cn 11A00lo 11A01mn",
   "11A0Blo 11A33mn 11A39mc 11A3Alo 11A3Bmn 11A3Fpo 11A47mn 11A48cn 11A50lo 11A51mn 11A57mc",
   "11A59mn 11A5Clo 11A8Amn 11A97mc 11A98mn 11A9Apo 11A9Dlo 11A9Epo 11AA3cn 11AB0lo 11AF9cn",
   "11B00po 11B0Acn 11B60mn 11B61mc 11B62mn 11B65mc 11B66mn 11B67mc 11B68cn 11BC0lo 11BE1po",
   "11BE2cn 11BF0nd 11BFAcn 11C00lo 11C09cn 11C0Alo 11C2Fmc 11C30mn 11C37cn 11C38mn 11C3Emc",
   "11C3Fmn 11C40lo 11C41po 11C46cn 11C50nd 11C5Ano 11C6Dcn 11C70po 11C72lo 11C90cn 11C92mn",
   "11CA8cn 11CA9mc 11CAAmn 11CB1mc 11CB2mn 11CB4mc 11CB5mn 11CB7cn 11D00lo 11D07cn 11D08lo",
   "11D0Acn 11D0Blo 11D31mn 11D37cn 11D3Amn 11D3Bcn 11D3Cmn 11D3Ecn 11D3Fmn 11D46lo 11D47mn",
   "11D48cn 11D50nd 11D5Acn 11D60lo 11D66cn 11D67lo 11D69cn 11D6Alo 11D8Amc 11D8Fcn 11D90mn",
   "11D92cn 11D93mc 11D95mn 11D96mc 11D97mn 11D98lo 11D99cn 11DA0nd 11DAAcn 11DB0lo 11DD9lm",
   "11DDAlo 11DDCcn 11DE0nd 11DEAcn 11EE0lo 11EF3mn 11EF5mc 11EF7po 11EF9cn 11F00mn 11F02lo",
   "11F03mc 11F04lo 11F11cn 11F12lo 11F34mc 11F36mn 11F3Bcn 11F3Emc 11F40mn 11F41mc 11F42mn",
   "11F43po 11F50nd 11F5Amn 11F5Bcn 11FB0lo 11FB1cn 11FC0no 11FD5so 11FDDsc 11FE1so 11FF2cn",
   "11FFFpo 12000lo 1239Acn 12400nl 1246Fcn 12470po 12475cn 12480lo 12544cn 12F90lo 12FF1po",
   "12FF3cn 13000lo 13430cf 13440mn 13441lo 13447mn 13456cn 13460lo 143FBcn 14400lo 14647cn",
   "16100lo 1611Emn 1612Amc 1612Dmn 16130nd 1613Acn 16800lo 16A39cn 16A40lo 16A5Fcn 16A60nd",
   "16A6Acn 16A6Epo 16A70lo 16ABFcn 16AC0nd 16ACAcn 16AD0lo 16AEEcn 16AF0mn 16AF5po 16AF6cn",
   "16B00lo 16B30mn 16B37po 16B3Cso 16B40lm 16B44po 16B45so 16B46cn 16B50nd 16B5Acn 16B5Bno",
   "16B62cn 16B63lo 16B78cn 16B7Dlo 16B90cn 16D40lm 16D43lo 16D6Blm 16D6Dpo 16D70nd 16D7Acn",
   "16E40lu 16E60ll 16E80no 16E97po 16E9Bcn 16EA0lu 16EB9cn 16EBBll 16ED4cn 16F00lo 16F4Bcn",
   "16F4Fmn 16F50lo 16F51mc 16F88cn 16F8Fmn 16F93lm 16FA0cn 16FE0lm 16FE2po 16FE3lm 16FE4mn",
   "16FE5cn 16FF0mc 16FF2lm 16FF4nl 16FF7cn 17000lo 18CD6cn 18CFFlo 18D1Fcn 18D80lo 18DF3cn",
   "1AFF0lm 1AFF4cn 1AFF5lm 1AFFCcn 1AFFDlm 1AFFFcn 1B000lo 1B123cn 1B132lo 1B133cn 1B150lo",
   "1B153cn 1B155lo 1B156cn 1B164lo 1B168cn 1B170lo 1B2FCcn 1BC00lo 1BC6Bcn 1BC70lo 1BC7Dcn",
   "1BC80lo 1BC89cn 1BC90lo 1BC9Acn 1BC9Cso 1BC9Dmn 1BC9Fpo 1BCA0cf 1BCA4cn 1CC00so 1CCF0nd",
   "1CCFAso 1CCFDcn 1CD00so 1CEB4cn 1CEBAso 1CED1cn 1CEE0so 1CEF0sm 1CEF1cn 1CF00mn 1CF2Ecn",
   "1CF30mn 1CF47cn 1CF50so 1CFC4cn 1D000so 1D0F6cn 1D100so 1D127cn 1D129so 1D165mc 1D167mn",
   "1D16Aso 1D16Dmc 1D173cf 1D17Bmn 1D183so 1D185mn 1D18Cso 1D1AAmn 1D1AEso 1D1EBcn 1D200so",
   "1D242mn 1D245so 1D246cn 1D2C0no 1D2D4cn 1D2E0no 1D2F4cn 1D300so 1D357cn 1D360no 1D379cn",
   "1D400lu 1D41All 1D434lu 1D44Ell 1D455cn 1D456ll 1D468lu 1D482ll 1D49Clu 1D49Dcn 1D49Elu",
   "1D4A0cn 1D4A2lu 1D4A3cn 1D4A5lu 1D4A7cn 1D4A9lu 1D4ADcn 1D4AElu 1D4B6ll 1D4BAcn 1D4BBll",
   "1D4BCcn 1D4BDll 1D4C4cn 1D4C5ll 1D4D0lu 1D4EAll 1D504lu 1D506cn 1D507lu 1D50Bcn 1D50Dlu",
   "1D515cn 1D516lu 1D51Dcn 1D51Ell 1D538lu 1D53Acn 1D53Blu 1D53Fcn 1D540lu 1D545cn 1D546lu",
   "1D547cn 1D54Alu 1D551cn 1D552ll 1D56Clu 1D586ll 1D5A0lu 1D5BAll 1D5D4lu 1D5EEll 1D608lu",
   "1D622ll 1D63Clu 1D656ll 1D670lu 1D68All 1D6A6cn 1D6A8lu 1D6C1sm 1D6C2ll 1D6DBsm 1D6DCll",
   "1D6E2lu 1D6FBsm 1D6FCll 1D715sm 1D716ll 1D71Clu 1D735sm 1D736ll 1D74Fsm 1D750ll 1D756lu",
   "1D76Fsm 1D770ll 1D789sm 1D78All 1D790lu 1D7A9sm 1D7AAll 1D7C3sm 1D7C4ll 1D7CAlu 1D7CBll",
   "1D7CCcn 1D7CEnd 1D800so 1DA00mn 1DA37so 1DA3Bmn 1DA6Dso 1DA75mn 1DA76so 1DA84mn 1DA85so",
   "1DA87po 1DA8Ccn 1DA9Bmn 1DAA0cn 1DAA1mn 1DAB0cn 1DF00ll 1DF0Alo 1DF0Bll 1DF1Fcn 1DF25ll",
   "1DF2Bcn 1E000mn 1E007cn 1E008mn 1E019cn 1E01Bmn 1E022cn 1E023mn 1E025cn 1E026mn 1E02Bcn",
   "1E030lm 1E06Ecn 1E08Fmn 1E090cn 1E100lo 1E12Dcn 1E130mn 1E137lm 1E13Ecn 1E140nd 1E14Acn",
   "1E14Elo 1E14Fso 1E150cn 1E290lo 1E2AEmn 1E2AFcn 1E2C0lo 1E2ECmn 1E2F0nd 1E2FAcn 1E2FFsc",
   "1E300cn 1E4D0lo 1E4EBlm 1E4ECmn 1E4F0nd 1E4FAcn 1E5D0lo 1E5EEmn 1E5F0lo 1E5F1nd 1E5FBcn",
   "1E5FFpo 1E600cn 1E6C0lo 1E6DFcn 1E6E0lo 1E6E3mn 1E6E4lo 1E6E6mn 1E6E7lo 1E6EEmn 1E6F0lo",
   "1E6F5mn 1E6F6cn 1E6FElo 1E6FFlm 1E700cn 1E7E0lo 1E7E7cn 1E7E8lo 1E7ECcn 1E7EDlo 1E7EFcn",
   "1E7F0lo 1E7FFcn 1E800lo 1E8C5cn 1E8C7no 1E8D0mn 1E8D7cn 1E900lu 1E922ll 1E944mn 1E94Blm",
   "1E94Ccn 1E950nd 1E95Acn 1E95Epo 1E960cn 1EC71no 1ECACso 1ECADno 1ECB0sc 1ECB1no 1ECB5cn",
   "1ED01no 1ED2Eso 1ED2Fno 1ED3Ecn 1EE00lo 1EE04cn 1EE05lo 1EE20cn 1EE21lo 1EE23cn 1EE24lo",
   "1EE25cn 1EE27lo 1EE28cn 1EE29lo 1EE33cn 1EE34lo 1EE38cn 1EE39lo 1EE3Acn 1EE3Blo 1EE3Ccn",
   "1EE42lo 1EE43cn 1EE47lo 1EE48cn 1EE49lo 1EE4Acn 1EE4Blo 1EE4Ccn 1EE4Dlo 1EE50cn 1EE51lo",
   "1EE53cn 1EE54lo 1EE55cn 1EE57lo 1EE58cn 1EE59lo 1EE5Acn 1EE5Blo 1EE5Ccn 1EE5Dlo 1EE5Ecn",
   "1EE5Flo 1EE60cn 1EE61lo 1EE63cn 1EE64lo 1EE65cn 1EE67lo 1EE6Bcn 1EE6Clo 1EE73cn 1EE74lo",
   "1EE78cn 1EE79lo 1EE7Dcn 1EE7Elo 1EE7Fcn 1EE80lo 1EE8Acn 1EE8Blo 1EE9Ccn 1EEA1lo 1EEA4cn",
   "1EEA5lo 1EEAAcn 1EEABlo 1EEBCcn 1EEF0sm 1EEF2cn 1F000so 1F02Ccn 1F030so 1F094cn 1F0A0so",
   "1F0AFcn 1F0B1so 1F0C0cn 1F0C1so 1F0D0cn 1F0D1so 1F0F6cn 1F100no 1F10Dso 1F1AEcn 1F1E6so",
   "1F203cn 1F210so 1F23Ccn 1F240so 1F249cn 1F250so 1F252cn 1F260so 1F266cn 1F300so 1F3FBsk",
   "1F400so 1F6D9cn 1F6DCso 1F6EDcn 1F6F0so 1F6FDcn 1F700so 1F7DAcn 1F7E0so 1F7ECcn 1F7F0so",
   "1F7F1cn 1F800so 1F80Ccn 1F810so 1F848cn 1F850so 1F85Acn 1F860so 1F888cn 1F890so 1F8AEcn",
   "1F8B0so 1F8BCcn 1F8C0so 1F8C2cn 1F8D0sm 1F8D9cn 1F900so 1FA58cn 1FA60so 1FA6Ecn 1FA70so",
   "1FA7Dcn 1FA80so 1FA8Bcn 1FA8Eso 1FAC7cn 1FAC8so 1FAC9cn 1FACDso 1FADDcn 1FADFso 1FAEBcn",
   "1FAEFso 1FAF9cn 1FB00so 1FB93cn 1FB94so 1FBF0nd 1FBFAso 1FBFBcn 20000lo 2A6E0cn 2A700lo",
   "2B81Ecn 2B820lo 2CEAEcn 2CEB0lo 2EBE1cn 2EBF0lo 2EE5Ecn 2F800lo 2FA1Ecn 30000lo 3134Bcn",
   "31350lo 3347Acn E0001cf E0002cn E0020cf E0080cn E0100mn E01F0cn F0000co FFFFEcn 100000co",
   "10FFFEcn"]

/-- The characters of a category. -/
def points (category : GeneralCategory) : CodePoints := .labelled table category.code

end GeneralCategory

/-- The characters of several categories. -/
def pointsOf (categories : List GeneralCategory) : CodePoints :=
  .unions (categories.map (·.points))

end Transcode.Text
