import Transcode.Text.CodePoints

/-!
# Scripts

The script of every character, and the characters that several scripts share. A character that is
not listed as shared belongs to its own script alone.
-/

namespace Transcode.Text.Script

/-- Where the script changes; `zzzz` marks characters of no script. -/
def table : List (Nat × String) := CodePoints.readLabels <| " ".intercalate
  ["0zyyy 41latn 5Bzyyy 61latn 7Bzyyy AAlatn ABzyyy BAlatn BBzyyy C0latn D7zyyy D8latn F7zyyy",
   "F8latn 2B9zyyy 2E0latn 2E5zyyy 2EAbopo 2ECzyyy 300zinh 370grek 374zyyy 375grek 378zzzz",
   "37Agrek 37Ezyyy 37Fgrek 380zzzz 384grek 385zyyy 386grek 387zyyy 388grek 38Bzzzz 38Cgrek",
   "38Dzzzz 38Egrek 3A2zzzz 3A3grek 3E2copt 3F0grek 400cyrl 485zinh 487cyrl 530zzzz 531armn",
   "557zzzz 559armn 58Bzzzz 58Darmn 590zzzz 591hebr 5C8zzzz 5D0hebr 5EBzzzz 5EFhebr 5F5zzzz",
   "600arab 605zyyy 606arab 60Czyyy 60Darab 61Bzyyy 61Carab 61Fzyyy 620arab 640zyyy 641arab",
   "64Bzinh 656arab 670zinh 671arab 6DDzyyy 6DEarab 700syrc 70Ezzzz 70Fsyrc 74Bzzzz 74Dsyrc",
   "750arab 780thaa 7B2zzzz 7C0nkoo 7FBzzzz 7FDnkoo 800samr 82Ezzzz 830samr 83Fzzzz 840mand",
   "85Czzzz 85Emand 85Fzzzz 860syrc 86Bzzzz 870arab 88Fzzzz 890arab 892zzzz 897arab 8E2zyyy",
   "8E3arab 900deva 951zinh 955deva 964zyyy 966deva 980beng 984zzzz 985beng 98Dzzzz 98Fbeng",
   "991zzzz 993beng 9A9zzzz 9AAbeng 9B1zzzz 9B2beng 9B3zzzz 9B6beng 9BAzzzz 9BCbeng 9C5zzzz",
   "9C7beng 9C9zzzz 9CBbeng 9CFzzzz 9D7beng 9D8zzzz 9DCbeng 9DEzzzz 9DFbeng 9E4zzzz 9E6beng",
   "9FFzzzz A01guru A04zzzz A05guru A0Bzzzz A0Fguru A11zzzz A13guru A29zzzz A2Aguru A31zzzz",
   "A32guru A34zzzz A35guru A37zzzz A38guru A3Azzzz A3Cguru A3Dzzzz A3Eguru A43zzzz A47guru",
   "A49zzzz A4Bguru A4Ezzzz A51guru A52zzzz A59guru A5Dzzzz A5Eguru A5Fzzzz A66guru A77zzzz",
   "A81gujr A84zzzz A85gujr A8Ezzzz A8Fgujr A92zzzz A93gujr AA9zzzz AAAgujr AB1zzzz AB2gujr",
   "AB4zzzz AB5gujr ABAzzzz ABCgujr AC6zzzz AC7gujr ACAzzzz ACBgujr ACEzzzz AD0gujr AD1zzzz",
   "AE0gujr AE4zzzz AE6gujr AF2zzzz AF9gujr B00zzzz B01orya B04zzzz B05orya B0Dzzzz B0Forya",
   "B11zzzz B13orya B29zzzz B2Aorya B31zzzz B32orya B34zzzz B35orya B3Azzzz B3Corya B45zzzz",
   "B47orya B49zzzz B4Borya B4Ezzzz B55orya B58zzzz B5Corya B5Ezzzz B5Forya B64zzzz B66orya",
   "B78zzzz B82taml B84zzzz B85taml B8Bzzzz B8Etaml B91zzzz B92taml B96zzzz B99taml B9Bzzzz",
   "B9Ctaml B9Dzzzz B9Etaml BA0zzzz BA3taml BA5zzzz BA8taml BABzzzz BAEtaml BBAzzzz BBEtaml",
   "BC3zzzz BC6taml BC9zzzz BCAtaml BCEzzzz BD0taml BD1zzzz BD7taml BD8zzzz BE6taml BFBzzzz",
   "C00telu C0Dzzzz C0Etelu C11zzzz C12telu C29zzzz C2Atelu C3Azzzz C3Ctelu C45zzzz C46telu",
   "C49zzzz C4Atelu C4Ezzzz C55telu C57zzzz C58telu C5Bzzzz C5Dtelu C5Ezzzz C60telu C64zzzz",
   "C66telu C70zzzz C77telu C80knda C8Dzzzz C8Eknda C91zzzz C92knda CA9zzzz CAAknda CB4zzzz",
   "CB5knda CBAzzzz CBCknda CC5zzzz CC6knda CC9zzzz CCAknda CCEzzzz CD5knda CD7zzzz CDDknda",
   "CDFzzzz CE0knda CE4zzzz CE6knda CF0zzzz CF1knda CF4zzzz D00mlym D0Dzzzz D0Emlym D11zzzz",
   "D12mlym D45zzzz D46mlym D49zzzz D4Amlym D50zzzz D54mlym D64zzzz D66mlym D80zzzz D81sinh",
   "D84zzzz D85sinh D97zzzz D9Asinh DB2zzzz DB3sinh DBCzzzz DBDsinh DBEzzzz DC0sinh DC7zzzz",
   "DCAsinh DCBzzzz DCFsinh DD5zzzz DD6sinh DD7zzzz DD8sinh DE0zzzz DE6sinh DF0zzzz DF2sinh",
   "DF5zzzz E01thai E3Bzzzz E3Fzyyy E40thai E5Czzzz E81laoo E83zzzz E84laoo E85zzzz E86laoo",
   "E8Bzzzz E8Claoo EA4zzzz EA5laoo EA6zzzz EA7laoo EBEzzzz EC0laoo EC5zzzz EC6laoo EC7zzzz",
   "EC8laoo ECFzzzz ED0laoo EDAzzzz EDClaoo EE0zzzz F00tibt F48zzzz F49tibt F6Dzzzz F71tibt",
   "F98zzzz F99tibt FBDzzzz FBEtibt FCDzzzz FCEtibt FD5zyyy FD9tibt FDBzzzz 1000mymr 10A0geor",
   "10C6zzzz 10C7geor 10C8zzzz 10CDgeor 10CEzzzz 10D0geor 10FBzyyy 10FCgeor 1100hang 1200ethi",
   "1249zzzz 124Aethi 124Ezzzz 1250ethi 1257zzzz 1258ethi 1259zzzz 125Aethi 125Ezzzz 1260ethi",
   "1289zzzz 128Aethi 128Ezzzz 1290ethi 12B1zzzz 12B2ethi 12B6zzzz 12B8ethi 12BFzzzz 12C0ethi",
   "12C1zzzz 12C2ethi 12C6zzzz 12C8ethi 12D7zzzz 12D8ethi 1311zzzz 1312ethi 1316zzzz 1318ethi",
   "135Bzzzz 135Dethi 137Dzzzz 1380ethi 139Azzzz 13A0cher 13F6zzzz 13F8cher 13FEzzzz 1400cans",
   "1680ogam 169Dzzzz 16A0runr 16EBzyyy 16EErunr 16F9zzzz 1700tglg 1716zzzz 171Ftglg 1720hano",
   "1735zyyy 1737zzzz 1740buhd 1754zzzz 1760tagb 176Dzzzz 176Etagb 1771zzzz 1772tagb 1774zzzz",
   "1780khmr 17DEzzzz 17E0khmr 17EAzzzz 17F0khmr 17FAzzzz 1800mong 1802zyyy 1804mong 1805zyyy",
   "1806mong 181Azzzz 1820mong 1879zzzz 1880mong 18ABzzzz 18B0cans 18F6zzzz 1900limb 191Fzzzz",
   "1920limb 192Czzzz 1930limb 193Czzzz 1940limb 1941zzzz 1944limb 1950tale 196Ezzzz 1970tale",
   "1975zzzz 1980talu 19ACzzzz 19B0talu 19CAzzzz 19D0talu 19DBzzzz 19DEtalu 19E0khmr 1A00bugi",
   "1A1Czzzz 1A1Ebugi 1A20lana 1A5Fzzzz 1A60lana 1A7Dzzzz 1A7Flana 1A8Azzzz 1A90lana 1A9Azzzz",
   "1AA0lana 1AAEzzzz 1AB0zinh 1ACFzzzz 1B00bali 1B4Dzzzz 1B4Ebali 1B80sund 1BC0batk 1BF4zzzz",
   "1BFCbatk 1C00lepc 1C38zzzz 1C3Blepc 1C4Azzzz 1C4Dlepc 1C50olck 1C80cyrl 1C8Bzzzz 1C90geor",
   "1CBBzzzz 1CBDgeor 1CC0sund 1CC8zzzz 1CD0zinh 1CD3zyyy 1CD4zinh 1CE1zyyy 1CE2zinh 1CE9zyyy",
   "1CEDzinh 1CEEzyyy 1CF4zinh 1CF5zyyy 1CF8zinh 1CFAzyyy 1CFBzzzz 1D00latn 1D26grek 1D2Bcyrl",
   "1D2Clatn 1D5Dgrek 1D62latn 1D66grek 1D6Blatn 1D78cyrl 1D79latn 1DBFgrek 1DC0zinh 1E00latn",
   "1F00grek 1F16zzzz 1F18grek 1F1Ezzzz 1F20grek 1F46zzzz 1F48grek 1F4Ezzzz 1F50grek 1F58zzzz",
   "1F59grek 1F5Azzzz 1F5Bgrek 1F5Czzzz 1F5Dgrek 1F5Ezzzz 1F5Fgrek 1F7Ezzzz 1F80grek 1FB5zzzz",
   "1FB6grek 1FC5zzzz 1FC6grek 1FD4zzzz 1FD6grek 1FDCzzzz 1FDDgrek 1FF0zzzz 1FF2grek 1FF5zzzz",
   "1FF6grek 1FFFzzzz 2000zyyy 200Czinh 200Ezyyy 2065zzzz 2066zyyy 2071latn 2072zzzz 2074zyyy",
   "207Flatn 2080zyyy 208Fzzzz 2090latn 209Dzzzz 20A0zyyy 20C1zzzz 20D0zinh 20F1zzzz 2100zyyy",
   "2126grek 2127zyyy 212Alatn 212Czyyy 2132latn 2133zyyy 214Elatn 214Fzyyy 2160latn 2189zyyy",
   "218Czzzz 2190zyyy 242Azzzz 2440zyyy 244Bzzzz 2460zyyy 2800brai 2900zyyy 2B74zzzz 2B76zyyy",
   "2B96zzzz 2B97zyyy 2C00glag 2C60latn 2C80copt 2CF4zzzz 2CF9copt 2D00geor 2D26zzzz 2D27geor",
   "2D28zzzz 2D2Dgeor 2D2Ezzzz 2D30tfng 2D68zzzz 2D6Ftfng 2D71zzzz 2D7Ftfng 2D80ethi 2D97zzzz",
   "2DA0ethi 2DA7zzzz 2DA8ethi 2DAFzzzz 2DB0ethi 2DB7zzzz 2DB8ethi 2DBFzzzz 2DC0ethi 2DC7zzzz",
   "2DC8ethi 2DCFzzzz 2DD0ethi 2DD7zzzz 2DD8ethi 2DDFzzzz 2DE0cyrl 2E00zyyy 2E5Ezzzz 2E80hani",
   "2E9Azzzz 2E9Bhani 2EF4zzzz 2F00hani 2FD6zzzz 2FF0zyyy 3005hani 3006zyyy 3007hani 3008zyyy",
   "3021hani 302Azinh 302Ehang 3030zyyy 3038hani 303Czyyy 3040zzzz 3041hira 3097zzzz 3099zinh",
   "309Bzyyy 309Dhira 30A0zyyy 30A1kana 30FBzyyy 30FDkana 3100zzzz 3105bopo 3130zzzz 3131hang",
   "318Fzzzz 3190zyyy 31A0bopo 31C0zyyy 31E6zzzz 31EFzyyy 31F0kana 3200hang 321Fzzzz 3220zyyy",
   "3260hang 327Fzyyy 32D0kana 32FFzyyy 3300kana 3358zyyy 3400hani 4DC0zyyy 4E00hani A000yiii",
   "A48Dzzzz A490yiii A4C7zzzz A4D0lisu A500vaii A62Czzzz A640cyrl A6A0bamu A6F8zzzz A700zyyy",
   "A722latn A788zyyy A78Blatn A7CEzzzz A7D0latn A7D2zzzz A7D3latn A7D4zzzz A7D5latn A7DDzzzz",
   "A7F2latn A800sylo A82Dzzzz A830zyyy A83Azzzz A840phag A878zzzz A880saur A8C6zzzz A8CEsaur",
   "A8DAzzzz A8E0deva A900kali A92Ezyyy A92Fkali A930rjng A954zzzz A95Frjng A960hang A97Dzzzz",
   "A980java A9CEzzzz A9CFzyyy A9D0java A9DAzzzz A9DEjava A9E0mymr A9FFzzzz AA00cham AA37zzzz",
   "AA40cham AA4Ezzzz AA50cham AA5Azzzz AA5Ccham AA60mymr AA80tavt AAC3zzzz AADBtavt AAE0mtei",
   "AAF7zzzz AB01ethi AB07zzzz AB09ethi AB0Fzzzz AB11ethi AB17zzzz AB20ethi AB27zzzz AB28ethi",
   "AB2Fzzzz AB30latn AB5Bzyyy AB5Clatn AB65grek AB66latn AB6Azyyy AB6Czzzz AB70cher ABC0mtei",
   "ABEEzzzz ABF0mtei ABFAzzzz AC00hang D7A4zzzz D7B0hang D7C7zzzz D7CBhang D7FCzzzz F900hani",
   "FA6Ezzzz FA70hani FADAzzzz FB00latn FB07zzzz FB13armn FB18zzzz FB1Dhebr FB37zzzz FB38hebr",
   "FB3Dzzzz FB3Ehebr FB3Fzzzz FB40hebr FB42zzzz FB43hebr FB45zzzz FB46hebr FB50arab FBC3zzzz",
   "FBD3arab FD3Ezyyy FD40arab FD90zzzz FD92arab FDC8zzzz FDCFarab FDD0zzzz FDF0arab FE00zinh",
   "FE10zyyy FE1Azzzz FE20zinh FE2Ecyrl FE30zyyy FE53zzzz FE54zyyy FE67zzzz FE68zyyy FE6Czzzz",
   "FE70arab FE75zzzz FE76arab FEFDzzzz FEFFzyyy FF00zzzz FF01zyyy FF21latn FF3Bzyyy FF41latn",
   "FF5Bzyyy FF66kana FF70zyyy FF71kana FF9Ezyyy FFA0hang FFBFzzzz FFC2hang FFC8zzzz FFCAhang",
   "FFD0zzzz FFD2hang FFD8zzzz FFDAhang FFDDzzzz FFE0zyyy FFE7zzzz FFE8zyyy FFEFzzzz FFF9zyyy",
   "FFFEzzzz 10000linb 1000Czzzz 1000Dlinb 10027zzzz 10028linb 1003Bzzzz 1003Clinb 1003Ezzzz",
   "1003Flinb 1004Ezzzz 10050linb 1005Ezzzz 10080linb 100FBzzzz 10100zyyy 10103zzzz 10107zyyy",
   "10134zzzz 10137zyyy 10140grek 1018Fzzzz 10190zyyy 1019Dzzzz 101A0grek 101A1zzzz 101D0zyyy",
   "101FDzinh 101FEzzzz 10280lyci 1029Dzzzz 102A0cari 102D1zzzz 102E0zinh 102E1zyyy 102FCzzzz",
   "10300ital 10324zzzz 1032Dital 10330goth 1034Bzzzz 10350perm 1037Bzzzz 10380ugar 1039Ezzzz",
   "1039Fugar 103A0xpeo 103C4zzzz 103C8xpeo 103D6zzzz 10400dsrt 10450shaw 10480osma 1049Ezzzz",
   "104A0osma 104AAzzzz 104B0osge 104D4zzzz 104D8osge 104FCzzzz 10500elba 10528zzzz 10530aghb",
   "10564zzzz 1056Faghb 10570vith 1057Bzzzz 1057Cvith 1058Bzzzz 1058Cvith 10593zzzz 10594vith",
   "10596zzzz 10597vith 105A2zzzz 105A3vith 105B2zzzz 105B3vith 105BAzzzz 105BBvith 105BDzzzz",
   "105C0todr 105F4zzzz 10600lina 10737zzzz 10740lina 10756zzzz 10760lina 10768zzzz 10780latn",
   "10786zzzz 10787latn 107B1zzzz 107B2latn 107BBzzzz 10800cprt 10806zzzz 10808cprt 10809zzzz",
   "1080Acprt 10836zzzz 10837cprt 10839zzzz 1083Ccprt 1083Dzzzz 1083Fcprt 10840armi 10856zzzz",
   "10857armi 10860palm 10880nbat 1089Fzzzz 108A7nbat 108B0zzzz 108E0hatr 108F3zzzz 108F4hatr",
   "108F6zzzz 108FBhatr 10900phnx 1091Czzzz 1091Fphnx 10920lydi 1093Azzzz 1093Flydi 10940zzzz",
   "10980mero 109A0merc 109B8zzzz 109BCmerc 109D0zzzz 109D2merc 10A00khar 10A04zzzz 10A05khar",
   "10A07zzzz 10A0Ckhar 10A14zzzz 10A15khar 10A18zzzz 10A19khar 10A36zzzz 10A38khar 10A3Bzzzz",
   "10A3Fkhar 10A49zzzz 10A50khar 10A59zzzz 10A60sarb 10A80narb 10AA0zzzz 10AC0mani 10AE7zzzz",
   "10AEBmani 10AF7zzzz 10B00avst 10B36zzzz 10B39avst 10B40prti 10B56zzzz 10B58prti 10B60phli",
   "10B73zzzz 10B78phli 10B80phlp 10B92zzzz 10B99phlp 10B9Dzzzz 10BA9phlp 10BB0zzzz 10C00orkh",
   "10C49zzzz 10C80hung 10CB3zzzz 10CC0hung 10CF3zzzz 10CFAhung 10D00rohg 10D28zzzz 10D30rohg",
   "10D3Azzzz 10D40gara 10D66zzzz 10D69gara 10D86zzzz 10D8Egara 10D90zzzz 10E60arab 10E7Fzzzz",
   "10E80yezi 10EAAzzzz 10EAByezi 10EAEzzzz 10EB0yezi 10EB2zzzz 10EC2arab 10EC5zzzz 10EFCarab",
   "10F00sogo 10F28zzzz 10F30sogd 10F5Azzzz 10F70ougr 10F8Azzzz 10FB0chrs 10FCCzzzz 10FE0elym",
   "10FF7zzzz 11000brah 1104Ezzzz 11052brah 11076zzzz 1107Fbrah 11080kthi 110C3zzzz 110CDkthi",
   "110CEzzzz 110D0sora 110E9zzzz 110F0sora 110FAzzzz 11100cakm 11135zzzz 11136cakm 11148zzzz",
   "11150mahj 11177zzzz 11180shrd 111E0zzzz 111E1sinh 111F5zzzz 11200khoj 11212zzzz 11213khoj",
   "11242zzzz 11280mult 11287zzzz 11288mult 11289zzzz 1128Amult 1128Ezzzz 1128Fmult 1129Ezzzz",
   "1129Fmult 112AAzzzz 112B0sind 112EBzzzz 112F0sind 112FAzzzz 11300gran 11304zzzz 11305gran",
   "1130Dzzzz 1130Fgran 11311zzzz 11313gran 11329zzzz 1132Agran 11331zzzz 11332gran 11334zzzz",
   "11335gran 1133Azzzz 1133Bzinh 1133Cgran 11345zzzz 11347gran 11349zzzz 1134Bgran 1134Ezzzz",
   "11350gran 11351zzzz 11357gran 11358zzzz 1135Dgran 11364zzzz 11366gran 1136Dzzzz 11370gran",
   "11375zzzz 11380tutg 1138Azzzz 1138Btutg 1138Czzzz 1138Etutg 1138Fzzzz 11390tutg 113B6zzzz",
   "113B7tutg 113C1zzzz 113C2tutg 113C3zzzz 113C5tutg 113C6zzzz 113C7tutg 113CBzzzz 113CCtutg",
   "113D6zzzz 113D7tutg 113D9zzzz 113E1tutg 113E3zzzz 11400newa 1145Czzzz 1145Dnewa 11462zzzz",
   "11480tirh 114C8zzzz 114D0tirh 114DAzzzz 11580sidd 115B6zzzz 115B8sidd 115DEzzzz 11600modi",
   "11645zzzz 11650modi 1165Azzzz 11660mong 1166Dzzzz 11680takr 116BAzzzz 116C0takr 116CAzzzz",
   "116D0mymr 116E4zzzz 11700ahom 1171Bzzzz 1171Dahom 1172Czzzz 11730ahom 11747zzzz 11800dogr",
   "1183Czzzz 118A0wara 118F3zzzz 118FFwara 11900diak 11907zzzz 11909diak 1190Azzzz 1190Cdiak",
   "11914zzzz 11915diak 11917zzzz 11918diak 11936zzzz 11937diak 11939zzzz 1193Bdiak 11947zzzz",
   "11950diak 1195Azzzz 119A0nand 119A8zzzz 119AAnand 119D8zzzz 119DAnand 119E5zzzz 11A00zanb",
   "11A48zzzz 11A50soyo 11AA3zzzz 11AB0cans 11AC0pauc 11AF9zzzz 11B00deva 11B0Azzzz 11BC0sunu",
   "11BE2zzzz 11BF0sunu 11BFAzzzz 11C00bhks 11C09zzzz 11C0Abhks 11C37zzzz 11C38bhks 11C46zzzz",
   "11C50bhks 11C6Dzzzz 11C70marc 11C90zzzz 11C92marc 11CA8zzzz 11CA9marc 11CB7zzzz 11D00gonm",
   "11D07zzzz 11D08gonm 11D0Azzzz 11D0Bgonm 11D37zzzz 11D3Agonm 11D3Bzzzz 11D3Cgonm 11D3Ezzzz",
   "11D3Fgonm 11D48zzzz 11D50gonm 11D5Azzzz 11D60gong 11D66zzzz 11D67gong 11D69zzzz 11D6Agong",
   "11D8Fzzzz 11D90gong 11D92zzzz 11D93gong 11D99zzzz 11DA0gong 11DAAzzzz 11EE0maka 11EF9zzzz",
   "11F00kawi 11F11zzzz 11F12kawi 11F3Bzzzz 11F3Ekawi 11F5Bzzzz 11FB0lisu 11FB1zzzz 11FC0taml",
   "11FF2zzzz 11FFFtaml 12000xsux 1239Azzzz 12400xsux 1246Fzzzz 12470xsux 12475zzzz 12480xsux",
   "12544zzzz 12F90cpmn 12FF3zzzz 13000egyp 13456zzzz 13460egyp 143FBzzzz 14400hluw 14647zzzz",
   "16100gukh 1613Azzzz 16800bamu 16A39zzzz 16A40mroo 16A5Fzzzz 16A60mroo 16A6Azzzz 16A6Emroo",
   "16A70tnsa 16ABFzzzz 16AC0tnsa 16ACAzzzz 16AD0bass 16AEEzzzz 16AF0bass 16AF6zzzz 16B00hmng",
   "16B46zzzz 16B50hmng 16B5Azzzz 16B5Bhmng 16B62zzzz 16B63hmng 16B78zzzz 16B7Dhmng 16B90zzzz",
   "16D40krai 16D7Azzzz 16E40medf 16E9Bzzzz 16F00plrd 16F4Bzzzz 16F4Fplrd 16F88zzzz 16F8Fplrd",
   "16FA0zzzz 16FE0tang 16FE1nshu 16FE2hani 16FE4kits 16FE5zzzz 16FF0hani 16FF2zzzz 17000tang",
   "187F8zzzz 18800tang 18B00kits 18CD6zzzz 18CFFkits 18D00tang 18D09zzzz 1AFF0kana 1AFF4zzzz",
   "1AFF5kana 1AFFCzzzz 1AFFDkana 1AFFFzzzz 1B000kana 1B001hira 1B120kana 1B123zzzz 1B132hira",
   "1B133zzzz 1B150hira 1B153zzzz 1B155kana 1B156zzzz 1B164kana 1B168zzzz 1B170nshu 1B2FCzzzz",
   "1BC00dupl 1BC6Bzzzz 1BC70dupl 1BC7Dzzzz 1BC80dupl 1BC89zzzz 1BC90dupl 1BC9Azzzz 1BC9Cdupl",
   "1BCA0zyyy 1BCA4zzzz 1CC00zyyy 1CCFAzzzz 1CD00zyyy 1CEB4zzzz 1CF00zinh 1CF2Ezzzz 1CF30zinh",
   "1CF47zzzz 1CF50zyyy 1CFC4zzzz 1D000zyyy 1D0F6zzzz 1D100zyyy 1D127zzzz 1D129zyyy 1D167zinh",
   "1D16Azyyy 1D17Bzinh 1D183zyyy 1D185zinh 1D18Czyyy 1D1AAzinh 1D1AEzyyy 1D1EBzzzz 1D200grek",
   "1D246zzzz 1D2C0zyyy 1D2D4zzzz 1D2E0zyyy 1D2F4zzzz 1D300zyyy 1D357zzzz 1D360zyyy 1D379zzzz",
   "1D400zyyy 1D455zzzz 1D456zyyy 1D49Dzzzz 1D49Ezyyy 1D4A0zzzz 1D4A2zyyy 1D4A3zzzz 1D4A5zyyy",
   "1D4A7zzzz 1D4A9zyyy 1D4ADzzzz 1D4AEzyyy 1D4BAzzzz 1D4BBzyyy 1D4BCzzzz 1D4BDzyyy 1D4C4zzzz",
   "1D4C5zyyy 1D506zzzz 1D507zyyy 1D50Bzzzz 1D50Dzyyy 1D515zzzz 1D516zyyy 1D51Dzzzz 1D51Ezyyy",
   "1D53Azzzz 1D53Bzyyy 1D53Fzzzz 1D540zyyy 1D545zzzz 1D546zyyy 1D547zzzz 1D54Azyyy 1D551zzzz",
   "1D552zyyy 1D6A6zzzz 1D6A8zyyy 1D7CCzzzz 1D7CEzyyy 1D800sgnw 1DA8Czzzz 1DA9Bsgnw 1DAA0zzzz",
   "1DAA1sgnw 1DAB0zzzz 1DF00latn 1DF1Fzzzz 1DF25latn 1DF2Bzzzz 1E000glag 1E007zzzz 1E008glag",
   "1E019zzzz 1E01Bglag 1E022zzzz 1E023glag 1E025zzzz 1E026glag 1E02Bzzzz 1E030cyrl 1E06Ezzzz",
   "1E08Fcyrl 1E090zzzz 1E100hmnp 1E12Dzzzz 1E130hmnp 1E13Ezzzz 1E140hmnp 1E14Azzzz 1E14Ehmnp",
   "1E150zzzz 1E290toto 1E2AFzzzz 1E2C0wcho 1E2FAzzzz 1E2FFwcho 1E300zzzz 1E4D0nagm 1E4FAzzzz",
   "1E5D0onao 1E5FBzzzz 1E5FFonao 1E600zzzz 1E7E0ethi 1E7E7zzzz 1E7E8ethi 1E7ECzzzz 1E7EDethi",
   "1E7EFzzzz 1E7F0ethi 1E7FFzzzz 1E800mend 1E8C5zzzz 1E8C7mend 1E8D7zzzz 1E900adlm 1E94Czzzz",
   "1E950adlm 1E95Azzzz 1E95Eadlm 1E960zzzz 1EC71zyyy 1ECB5zzzz 1ED01zyyy 1ED3Ezzzz 1EE00arab",
   "1EE04zzzz 1EE05arab 1EE20zzzz 1EE21arab 1EE23zzzz 1EE24arab 1EE25zzzz 1EE27arab 1EE28zzzz",
   "1EE29arab 1EE33zzzz 1EE34arab 1EE38zzzz 1EE39arab 1EE3Azzzz 1EE3Barab 1EE3Czzzz 1EE42arab",
   "1EE43zzzz 1EE47arab 1EE48zzzz 1EE49arab 1EE4Azzzz 1EE4Barab 1EE4Czzzz 1EE4Darab 1EE50zzzz",
   "1EE51arab 1EE53zzzz 1EE54arab 1EE55zzzz 1EE57arab 1EE58zzzz 1EE59arab 1EE5Azzzz 1EE5Barab",
   "1EE5Czzzz 1EE5Darab 1EE5Ezzzz 1EE5Farab 1EE60zzzz 1EE61arab 1EE63zzzz 1EE64arab 1EE65zzzz",
   "1EE67arab 1EE6Bzzzz 1EE6Carab 1EE73zzzz 1EE74arab 1EE78zzzz 1EE79arab 1EE7Dzzzz 1EE7Earab",
   "1EE7Fzzzz 1EE80arab 1EE8Azzzz 1EE8Barab 1EE9Czzzz 1EEA1arab 1EEA4zzzz 1EEA5arab 1EEAAzzzz",
   "1EEABarab 1EEBCzzzz 1EEF0arab 1EEF2zzzz 1F000zyyy 1F02Czzzz 1F030zyyy 1F094zzzz 1F0A0zyyy",
   "1F0AFzzzz 1F0B1zyyy 1F0C0zzzz 1F0C1zyyy 1F0D0zzzz 1F0D1zyyy 1F0F6zzzz 1F100zyyy 1F1AEzzzz",
   "1F1E6zyyy 1F200hira 1F201zyyy 1F203zzzz 1F210zyyy 1F23Czzzz 1F240zyyy 1F249zzzz 1F250zyyy",
   "1F252zzzz 1F260zyyy 1F266zzzz 1F300zyyy 1F6D8zzzz 1F6DCzyyy 1F6EDzzzz 1F6F0zyyy 1F6FDzzzz",
   "1F700zyyy 1F777zzzz 1F77Bzyyy 1F7DAzzzz 1F7E0zyyy 1F7ECzzzz 1F7F0zyyy 1F7F1zzzz 1F800zyyy",
   "1F80Czzzz 1F810zyyy 1F848zzzz 1F850zyyy 1F85Azzzz 1F860zyyy 1F888zzzz 1F890zyyy 1F8AEzzzz",
   "1F8B0zyyy 1F8BCzzzz 1F8C0zyyy 1F8C2zzzz 1F900zyyy 1FA54zzzz 1FA60zyyy 1FA6Ezzzz 1FA70zyyy",
   "1FA7Dzzzz 1FA80zyyy 1FA8Azzzz 1FA8Fzyyy 1FAC7zzzz 1FACEzyyy 1FADDzzzz 1FADFzyyy 1FAEAzzzz",
   "1FAF0zyyy 1FAF9zzzz 1FB00zyyy 1FB93zzzz 1FB94zyyy 1FBFAzzzz 20000hani 2A6E0zzzz 2A700hani",
   "2B73Azzzz 2B740hani 2B81Ezzzz 2B820hani 2CEA2zzzz 2CEB0hani 2EBE1zzzz 2EBF0hani 2EE5Ezzzz",
   "2F800hani 2FA1Ezzzz 30000hani 3134Bzzzz 31350hani 323B0zzzz E0001zyyy E0002zzzz E0020zyyy",
   "E0080zzzz E0100zinh E01F0zzzz"]

/-- The characters that several scripts share, with the codes of the scripts. -/
def sharedTable : List (CodePoints × List String) :=
  [(.ofText "B7",
    ["avst", "cari", "copt", "dupl", "elba", "geor", "glag", "gong", "goth", "grek",
     "hani", "latn", "lydi", "mahj", "perm", "shaw"]),
   (.ofText "2BC", ["beng", "cyrl", "deva", "latn", "lisu", "thai", "toto"]),
   (.ofText "2C7 2C9-2CB 2D9", ["bopo", "latn"]),
   (.ofText "2CD", ["latn", "lisu"]),
   (.ofText "2D7", ["latn", "thai"]),
   (.ofText "300", ["cher", "copt", "cyrl", "grek", "latn", "perm", "sunu", "tale"]),
   (.ofText "301", ["cher", "cyrl", "grek", "latn", "osge", "sunu", "tale", "todr"]),
   (.ofText "302", ["cher", "cyrl", "latn", "tfng"]),
   (.ofText "303", ["glag", "latn", "sunu", "syrc", "thai"]),
   (.ofText "304",
    ["aghb", "cher", "copt", "cyrl", "goth", "grek", "latn", "osge", "syrc", "tfng",
     "todr"]),
   (.ofText "305", ["copt", "elba", "glag", "goth", "kana", "latn"]),
   (.ofText "306", ["cyrl", "grek", "latn", "perm", "tfng"]),
   (.ofText "307", ["copt", "dupl", "hebr", "latn", "perm", "syrc", "tale", "tfng", "todr"]),
   (.ofText "308",
    ["armn", "cyrl", "dupl", "goth", "grek", "hebr", "latn", "perm", "syrc", "tale",
     "tfng"]),
   (.ofText "309", ["latn", "tfng"]),
   (.ofText "30A", ["dupl", "latn", "syrc"]),
   (.ofText "30B", ["cher", "cyrl", "latn", "osge"]),
   (.ofText "30C", ["cher", "latn", "tale"]),
   (.ofText "30D 310", ["latn", "sunu"]),
   (.ofText "30E", ["ethi", "latn"]),
   (.ofText "311", ["cyrl", "latn", "todr"]),
   (.ofText "313", ["grek", "latn", "perm", "todr"]),
   (.ofText "323", ["cher", "dupl", "kana", "latn", "syrc", "tfng"]),
   (.ofText "324", ["cher", "dupl", "latn", "syrc"]),
   (.ofText "325 32E", ["latn", "syrc"]),
   (.ofText "32D", ["latn", "sunu", "syrc"]),
   (.ofText "330", ["cher", "latn", "syrc"]),
   (.ofText "331", ["aghb", "cher", "goth", "latn", "sunu", "syrc", "thai"]),
   (.ofText "342 345 1DC0-1DC1", ["grek"]),
   (.ofText "358", ["latn", "osge"]),
   (.ofText "35E", ["aghb", "latn", "todr"]),
   (.ofText "363-36F", ["latn"]),
   (.ofText "374-375", ["copt", "grek"]),
   (.ofText "483", ["cyrl", "perm"]),
   (.ofText "484 487 2E43 A66F", ["cyrl", "glag"]),
   (.ofText "485-486", ["cyrl", "latn"]),
   (.ofText "589", ["armn", "geor", "glag"]),
   (.ofText "60C 61B", ["arab", "gara", "nkoo", "rohg", "syrc", "thaa", "yezi"]),
   (.ofText "61C", ["arab", "syrc", "thaa"]),
   (.ofText "61F", ["adlm", "arab", "gara", "nkoo", "rohg", "syrc", "thaa", "yezi"]),
   (.ofText "640", ["adlm", "arab", "mand", "mani", "ougr", "phlp", "rohg", "sogd", "syrc"]),
   (.ofText "64B-655 670", ["arab", "syrc"]),
   (.ofText "660-669", ["arab", "thaa", "yezi"]),
   (.ofText "6D4", ["arab", "rohg"]),
   (.ofText "951",
    ["beng", "deva", "gran", "gujr", "guru", "knda", "latn", "mlym", "nand", "newa",
     "orya", "shrd", "taml", "telu", "tirh"]),
   (.ofText "952",
    ["beng", "deva", "gran", "gujr", "guru", "knda", "latn", "mlym", "newa", "orya",
     "taml", "telu", "tirh"]),
   (.ofText "964",
    ["beng", "deva", "dogr", "gong", "gonm", "gran", "gujr", "guru", "knda", "mahj",
     "mlym", "nand", "onao", "orya", "sind", "sinh", "sylo", "takr", "taml", "telu",
     "tirh"]),
   (.ofText "965",
    ["beng", "deva", "dogr", "gong", "gonm", "gran", "gujr", "gukh", "guru", "knda",
     "limb", "mahj", "mlym", "nand", "onao", "orya", "sind", "sinh", "sylo", "takr",
     "taml", "telu", "tirh"]),
   (.ofText "966-96F", ["deva", "dogr", "kthi", "mahj"]),
   (.ofText "9E6-9EF", ["beng", "cakm", "sylo"]),
   (.ofText "A66-A6F", ["guru", "mult"]),
   (.ofText "AE6-AEF", ["gujr", "khoj"]),
   (.ofText "BE6-BF3 11301 11303 1133B-1133C 11FD0-11FD1 11FD3", ["gran", "taml"]),
   (.ofText "CE6-CEF", ["knda", "nand", "tutg"]),
   (.ofText "1040-1049", ["cakm", "mymr", "tale"]),
   (.ofText "10FB", ["geor", "glag", "latn"]),
   (.ofText "16EB-16ED", ["runr"]),
   (.ofText "1735-1736", ["buhd", "hano", "tagb", "tglg"]),
   (.ofText "1802-1803 1805", ["mong", "phag"]),
   (.ofText "1CD0 1CD2", ["beng", "deva", "gran", "knda"]),
   (.ofText "1CD1 1CD4 1CDB 1CDE-1CDF 1CE3-1CE8 1CEC 1CEE-1CF1", ["deva"]),
   (.ofText "1CD3", ["deva", "gran", "knda"]),
   (.ofText "1CD5", ["beng", "deva", "newa", "telu", "tirh"]),
   (.ofText "1CD6", ["beng", "deva", "telu"]),
   (.ofText "1CD7", ["deva", "newa", "shrd"]),
   (.ofText "1CD8", ["beng", "deva", "newa", "telu"]),
   (.ofText "1CD9 1CDC-1CDD 1CE0", ["deva", "shrd"]),
   (.ofText "1CDA", ["deva", "knda", "mlym", "orya", "taml", "telu"]),
   (.ofText "1CE1 1CF5-1CF6", ["beng", "deva"]),
   (.ofText "1CE2", ["deva", "newa", "tirh"]),
   (.ofText "1CE9", ["deva", "nand", "newa"]),
   (.ofText "1CEA", ["beng", "deva", "shrd"]),
   (.ofText "1CEB", ["deva", "newa"]),
   (.ofText "1CED", ["beng", "deva", "newa", "shrd"]),
   (.ofText "1CF2",
    ["beng", "deva", "gran", "knda", "mlym", "nand", "orya", "sinh", "telu", "tirh",
     "tutg"]),
   (.ofText "1CF3 1CF8-1CF9", ["deva", "gran"]),
   (.ofText "1CF4", ["deva", "gran", "knda", "tutg"]),
   (.ofText "1CF7", ["beng"]),
   (.ofText "1CFA", ["nand"]),
   (.ofText "1DF8", ["cyrl", "latn", "syrc"]),
   (.ofText "1DFA", ["syrc"]),
   (.ofText "202F", ["latn", "mong", "phag"]),
   (.ofText "204F", ["adlm", "arab"]),
   (.ofText "205A", ["cari", "geor", "glag", "hung", "lyci", "orkh"]),
   (.ofText "205D", ["cari", "grek", "hung", "mero"]),
   (.ofText "20F0", ["deva", "gran", "latn"]),
   (.ofText "2E17", ["copt", "latn"]),
   (.ofText "2E30", ["avst", "orkh"]),
   (.ofText "2E31", ["avst", "cari", "geor", "hung", "kthi", "lydi", "samr"]),
   (.ofText "2E3C 1BCA0-1BCA3", ["dupl"]),
   (.ofText "2E41", ["adlm", "arab", "hung"]),
   (.ofText "2FF0-2FFF 31EF", ["hani", "tang"]),
   (.ofText "3001", ["bopo", "hang", "hani", "hira", "kana", "mong", "yiii"]),
   (.ofText "3002", ["bopo", "hang", "hani", "hira", "kana", "mong", "phag", "yiii"]),
   (.ofText "3003 3013 301C-301F 3030 3037 FE45-FE46", ["bopo", "hang", "hani", "hira", "kana"]),
   (.ofText <| " ".intercalate
      ["3006 303E-303F 3190-319F 31C0-31E5 3220-3247 3280-32B0 32C0-32CB 32FF",
       "3358-3370 337B-337F 33E0-33FE 1D360-1D371 1F250-1F251"],
    ["hani"]),
   (.ofText "3008-3009", ["bopo", "hang", "hani", "hira", "kana", "mong", "tibt", "yiii"]),
   (.ofText "300A-300B", ["bopo", "hang", "hani", "hira", "kana", "lisu", "mong", "tibt", "yiii"]),
   (.ofText "300C-3011 3014-301B 30FB FF61-FF65",
    ["bopo", "hang", "hani", "hira", "kana", "yiii"]),
   (.ofText "302A-302D", ["bopo", "hani"]),
   (.ofText "3031-3035 3099-309C 30A0 30FC FF70 FF9E-FF9F", ["hira", "kana"]),
   (.ofText "303C-303D", ["hani", "hira", "kana"]),
   (.ofText "A700-A707", ["hani", "latn"]),
   (.ofText "A830-A832",
    ["deva", "dogr", "gujr", "guru", "khoj", "knda", "kthi", "mahj", "mlym", "modi",
     "nand", "shrd", "sind", "takr", "tirh", "tutg"]),
   (.ofText "A833-A835",
    ["deva", "dogr", "gujr", "guru", "khoj", "knda", "kthi", "mahj", "modi", "nand",
     "shrd", "sind", "takr", "tirh", "tutg"]),
   (.ofText "A836-A837 A839",
    ["deva", "dogr", "gujr", "guru", "khoj", "kthi", "mahj", "modi", "sind", "takr",
     "tirh"]),
   (.ofText "A838",
    ["deva", "dogr", "gujr", "guru", "khoj", "kthi", "mahj", "modi", "shrd", "sind",
     "takr", "tirh"]),
   (.ofText "A8F1", ["beng", "deva", "tutg"]),
   (.ofText "A8F3", ["deva", "taml"]),
   (.ofText "A92E", ["kali", "latn", "mymr"]),
   (.ofText "A9CF", ["bugi", "java"]),
   (.ofText "FD3E-FD3F", ["arab", "nkoo"]),
   (.ofText "FDF2 FDFD", ["arab", "thaa"]),
   (.ofText "10100-10101", ["cpmn", "cprt", "linb"]),
   (.ofText "10102 10137-1013F", ["cprt", "linb"]),
   (.ofText "10107-10133", ["cprt", "lina", "linb"]),
   (.ofText "102E0-102FB", ["arab", "copt"]),
   (.ofText "10AF2", ["mani", "ougr"])]

/-- The codes of the scripts, each with its longer names. -/
def names : List (String × List String) :=
  [("adlm", ["adlam"]), ("aghb", ["caucasianalbanian"]), ("ahom", ["ahom"]), ("arab", ["arabic"]),
   ("armi", ["imperialaramaic"]), ("armn", ["armenian"]), ("avst", ["avestan"]),
   ("bali", ["balinese"]), ("bamu", ["bamum"]), ("bass", ["bassavah"]), ("batk", ["batak"]),
   ("beng", ["bengali"]), ("bhks", ["bhaiksuki"]), ("bopo", ["bopomofo"]), ("brah", ["brahmi"]),
   ("brai", ["braille"]), ("bugi", ["buginese"]), ("buhd", ["buhid"]), ("cakm", ["chakma"]),
   ("cans", ["canadianaboriginal"]), ("cari", ["carian"]), ("cham", ["cham"]),
   ("cher", ["cherokee"]), ("chrs", ["chorasmian"]), ("copt", ["coptic", "qaac"]),
   ("cpmn", ["cyprominoan"]), ("cprt", ["cypriot"]), ("cyrl", ["cyrillic"]),
   ("deva", ["devanagari"]), ("diak", ["divesakuru"]), ("dogr", ["dogra"]), ("dsrt", ["deseret"]),
   ("dupl", ["duployan"]), ("egyp", ["egyptianhieroglyphs"]), ("elba", ["elbasan"]),
   ("elym", ["elymaic"]), ("ethi", ["ethiopic"]), ("gara", ["garay"]), ("geor", ["georgian"]),
   ("glag", ["glagolitic"]), ("gong", ["gunjalagondi"]), ("gonm", ["masaramgondi"]),
   ("goth", ["gothic"]), ("gran", ["grantha"]), ("grek", ["greek"]), ("gujr", ["gujarati"]),
   ("gukh", ["gurungkhema"]), ("guru", ["gurmukhi"]), ("hang", ["hangul"]), ("hani", ["han"]),
   ("hano", ["hanunoo"]), ("hatr", ["hatran"]), ("hebr", ["hebrew"]), ("hira", ["hiragana"]),
   ("hluw", ["anatolianhieroglyphs"]), ("hmng", ["pahawhhmong"]),
   ("hmnp", ["nyiakengpuachuehmong"]), ("hung", ["oldhungarian"]), ("ital", ["olditalic"]),
   ("java", ["javanese"]), ("kali", ["kayahli"]), ("kana", ["katakana"]), ("kawi", ["kawi"]),
   ("khar", ["kharoshthi"]), ("khmr", ["khmer"]), ("khoj", ["khojki"]),
   ("kits", ["khitansmallscript"]), ("knda", ["kannada"]), ("krai", ["kiratrai"]),
   ("kthi", ["kaithi"]), ("lana", ["taitham"]), ("laoo", ["lao"]), ("latn", ["latin"]),
   ("lepc", ["lepcha"]), ("limb", ["limbu"]), ("lina", ["lineara"]), ("linb", ["linearb"]),
   ("lisu", ["lisu"]), ("lyci", ["lycian"]), ("lydi", ["lydian"]), ("mahj", ["mahajani"]),
   ("maka", ["makasar"]), ("mand", ["mandaic"]), ("mani", ["manichaean"]), ("marc", ["marchen"]),
   ("medf", ["medefaidrin"]), ("mend", ["mendekikakui"]), ("merc", ["meroiticcursive"]),
   ("mero", ["meroitichieroglyphs"]), ("mlym", ["malayalam"]), ("modi", ["modi"]),
   ("mong", ["mongolian"]), ("mroo", ["mro"]), ("mtei", ["meeteimayek"]), ("mult", ["multani"]),
   ("mymr", ["myanmar"]), ("nagm", ["nagmundari"]), ("nand", ["nandinagari"]),
   ("narb", ["oldnortharabian"]), ("nbat", ["nabataean"]), ("newa", ["newa"]), ("nkoo", ["nko"]),
   ("nshu", ["nushu"]), ("ogam", ["ogham"]), ("olck", ["olchiki"]), ("onao", ["olonal"]),
   ("orkh", ["oldturkic"]), ("orya", ["oriya"]), ("osge", ["osage"]), ("osma", ["osmanya"]),
   ("ougr", ["olduyghur"]), ("palm", ["palmyrene"]), ("pauc", ["paucinhau"]),
   ("perm", ["oldpermic"]), ("phag", ["phagspa"]), ("phli", ["inscriptionalpahlavi"]),
   ("phlp", ["psalterpahlavi"]), ("phnx", ["phoenician"]), ("plrd", ["miao"]),
   ("prti", ["inscriptionalparthian"]), ("rjng", ["rejang"]), ("rohg", ["hanifirohingya"]),
   ("runr", ["runic"]), ("samr", ["samaritan"]), ("sarb", ["oldsoutharabian"]),
   ("saur", ["saurashtra"]), ("sgnw", ["signwriting"]), ("shaw", ["shavian"]),
   ("shrd", ["sharada"]), ("sidd", ["siddham"]), ("sind", ["khudawadi"]), ("sinh", ["sinhala"]),
   ("sogd", ["sogdian"]), ("sogo", ["oldsogdian"]), ("sora", ["sorasompeng"]),
   ("soyo", ["soyombo"]), ("sund", ["sundanese"]), ("sunu", ["sunuwar"]),
   ("sylo", ["sylotinagri"]), ("syrc", ["syriac"]), ("tagb", ["tagbanwa"]), ("takr", ["takri"]),
   ("tale", ["taile"]), ("talu", ["newtailue"]), ("taml", ["tamil"]), ("tang", ["tangut"]),
   ("tavt", ["taiviet"]), ("telu", ["telugu"]), ("tfng", ["tifinagh"]), ("tglg", ["tagalog"]),
   ("thaa", ["thaana"]), ("thai", ["thai"]), ("tibt", ["tibetan"]), ("tirh", ["tirhuta"]),
   ("tnsa", ["tangsa"]), ("todr", ["todhri"]), ("toto", ["toto"]), ("tutg", ["tulutigalari"]),
   ("ugar", ["ugaritic"]), ("vaii", ["vai"]), ("vith", ["vithkuqi"]), ("wara", ["warangciti"]),
   ("wcho", ["wancho"]), ("xpeo", ["oldpersian"]), ("xsux", ["cuneiform"]), ("yezi", ["yezidi"]),
   ("yiii", ["yi"]), ("zanb", ["zanabazarsquare"]), ("zinh", ["inherited", "qaai"]),
   ("zyyy", ["common"])]

/-- The code of a script that goes by a name. -/
def codeOf? (name : String) : Option String :=
  (names.find? fun entry => entry.1 = name || entry.2.contains name).map (·.1)

/-- The characters of a script. -/
def points (code : String) : CodePoints := .labelled table code

/-- The characters that a script uses: its own, and those it shares. -/
def extension (code : String) : CodePoints :=
  let shared := CodePoints.unions (sharedTable.map (·.1))
  let uses := (sharedTable.filter (·.2.contains code)).map (·.1)
  ((points code).diff shared).union (.unions uses)

end Transcode.Text.Script
