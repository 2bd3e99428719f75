/-!
# Classes of characters

A class is given by the lengths of runs outside and inside it, in letters to base 26.
-/

namespace BeliefLogic.Text

/-- Numbers to base 26, the last digit of each a small letter. -/
def numbers (s : String) : List Nat :=
  (s.toList.foldl (fun (ns, n) c =>
    if c.isLower then ((26 * n + c.toNat - 97) :: ns, 0) else (ns, 26 * n + c.toNat - 65))
    (([] : List Nat), 0)).1.reverse

/-- Whether a code point lies in one of the runs that belong to a class. -/
def inRuns : List Nat → Nat → Bool
  | out :: within :: runs, n =>
    out ≤ n && (n < out + within || inRuns runs (n - (out + within)))
  | _, _ => false

def wordRuns : List Nat := numbers <|
  "BwkhBaebbBaBvbhcbbdcbdbxbBfbRqemofhbbbEzfbccebbgbbdbbbubDfbFjiGkbBmcbgBpCtBbeeBtBrvkecbDvbbpchpc" ++
  "bqbbBeBdDllboBrjcebfwebjbdbxzhlfybgrBqCgCcdbsbhkekbqeicccwbhbbdedbqbncbdemcgcbigeccwbhbcbcbcBfeb" ++
  "bhkcdqjbdbwbhbcbfdbsbpcekjblicccwbhbcbfdbBecbdekbhlbbgddbedcbbbcdcdddmwbvnsibdbxbqdbBadcbccekihb" ++
  "beibdbxbkbfdbBfcbcekbcrjbdbBpcbqbfdbketbgfsdybjbbchBfkrBwbcmhjkBncbbbfbybbbkbcjbcfbbjkceBgbBfumi" ++
  "bBkBbfElBrulggeedbdchdenmbbkgBmbbfbcBrbMvbechbbbecBpbecBhbechbbbecpbCfbecCpoudqqDicgdXwcrbBafCxd" ++
  "lhsntosonbdpCaBjbebdkgkwkgDlhfcBibbfCskBfBnBocflBseBaglBlxjCbBrkgknbDpBvridkBpBenCeBaBkBckdBxcjh" ++
  "BrcdBpebgbcdbfHkCmKscgcBmcgcibbbbbbbBfcCbbhbbddbhdecgenfdbhElccgflgnDxbebckbbdfgbbbbbbeblceffebb" ++
  "CgBByCiDawYgBeBRoIvgedcjbcBmbbfbcCehbqxjhbhbhbhbhbhbhbhDcbSbdzjhfcfeDigdbDmbefBrbDqdekBgBwqBgkBe" ++
  "ibpBgkBnpMiJToCmBGUfCpBucKjdBcuBvqBfcDcBnjcDzcCmfcbbbfyqbdbebxngkCaoByBckygdbbcbBmkxzBdhBvBclgfb" ++
  "zbBpxdbiekgxdbdBybbdccfcbbbydclhdmgcgcgjhbhbBrbogElnkgQNsmxeBxMNcOccEcBmhmffbbkbnbfbbbcbcbEeBhNz" ++
  "sCmcCcBomEmfbFftkhBagBalDldgcgcgcdBjmbBabtbcbpcoBiEtmBtmCfrcJkBddBxqBbeBkjBefBmkBecBkeibfBqGcckg" ++
  "BkeBkeBoiCamlbpbhbcblbpbhbcCpLzjwkiygbBqbjCrgcbbBsbcdbcxcBfcBmijBwtbcfBheBaCsCeeucBvpebdbBdkjxBf" ++
  "bBgBgibBcgfqCckwcBbfBaxhDcCvCdBznBzhBqmkLiBfbBqgcDaBoiwleBbsBuBcuxmCbBaBebccbnBtBgzhkjBkpkebcbiB" ++
  "jdbmBwoellbbeulsbzDghbbbebpbkhBvrklicccwbhbcbfdbsbmfGcCbsefkfdBeBwucbbikGkBvBpeBkBwublkBmBrnbhkC" ++
  "cBbvmehHdBsEmDfmicbcibcbypbbbokCsicBnqbbbBcbkBohbvblButbsCvKdjbBlrbpBdfBeEihbcbBmvbjkggbcbBgobhk" ++
  "LytHhbpvBrBJmDyEhrHoDXkDtpBPfFZtWlMUbVxhBfbkgDbbkgBesBwqemkbhbvftBAmDjEbCxfbConCmcbbBcJCaiBVqBqj" ++
  "NFrebhbcbLfBtdreiPgDKuEdfndjhkILiuEezFfDhbCtbccbcccebmbbbhbCnbecibhbBcbebfbbdhbNcczbzbBfbzbBfbzb" ++
  "BfbzbBfbzbicByCQyBfSnBtkhckebMjBesBsekBWghbebcbpbHpcjBwCqhbekBElChbdbeCyBtbpHmebBbbcbbcbbkbebbbb" ++
  "gbebbbbbbdbcbbcbbbbbbbbbbcbbcebhbebebbbkbrfdbfbrWinEDfkBNqCLFcBgGDthIocINqoLBlEPjUwCFyHHz"

def hiddenRuns : List Nat := numbers <|
  "aBgDrBimbBBmcgehbbbubPhbBmcBycdbCdiBbegrwbHkbBwcChcDxoChcBxcpbBccbblfBfjCwbGfbicccwbhbbdecjcccei" ++
  "becbfczcdbgeccwbhbcbcbccbbfeccddbhebbhrkdbjbdbwbhbcbfckbdbdcbpecmhhbdbicccwbhbcbfcjcccdhdecbfcsk" ++
  "cbgddbedcbbbcdcdddmefddbecbgbovfnbdbxbqcjbdbehcbdcbceckhwbdbxbkbfcjbdbehcgcbeckbcnnbdbBzbdbgeqcB" ++
  "abdbsdybjbbchdbegbbbigkcdmCgeBdBlcbbbfbybbbxcfbbbgckceBgCubBkeBnbBkbpbnBlHqbbfbcOnbechbbbecBpbec" ++
  "BhbechbbbecpbCfbecCpcBgdBagDicgcYqbBcdDlhwjyjumnbdbcmDqckgkgoblgDlhBrfCskBfbmemebdBqcflBseBagldC" ++
  "kcCnbBdclgkgocBfBxCzdBvbEmiCidpdCihBrcliBrfUocgcBmcgcibbbbbbbBfcCbbpbocgbtcdbjryiBvrccBbbndBhpBh" ++
  "pFkeZnzlvCRscBgbNlfBtbbfbcCehcoyjhbhbhbhbhbhbhbhbEwBiBabDlmIgBamfClbDicDzfBrbDqbDgmBvbBRIrdCdjNk" ++
  "uHciHvfcbbbfyChdkgCeiCsimgEmlBedDableBhbCdjockcDzyBckgcgcgjhbhbCieEwckgQNsmxeBxeDAuJMeOccEcBmhmf" ++
  "fBabfbbbcbcbEvqRdcCchbBgBqgBzbtbeefbFfeHidgcgcgcddhbhnccmbBabtbcbpcoBiEtfdeBtdDkbndbBvBuFaBddBxp" ++
  "BceBkjBefBrfBebBleoBqGcckgBkeBkeBoiCalmbpbhbcblbpbhbcCpLzjwkiygbBqbjCrgcbbBsbcdbcxbCuijBwtbcfBhd" ++
  "BbfbCmCeeucBybcfibdbBdcdekhjhCmBgBnemjCcdBdcBbfBahemhDcCvCdBznBzhBuikLiBfbBqbdccDaBoiBqwBaBmBcux" ++
  "jDaeBkjCkbfnzhkgCbbsiBnjDsbulsbBsCnhbbbebpblgChfkgebicccwbhbcbfbkcccdcbgbfhchdfFjDobfBeCuikGkCcc" ++
  "BmBiCrlkgntCggkCcBbcpexHdCiDwDfmicbcibcbBebccmjkCsicBuclBbCuiDfnCvKdjbBtbokBddBgcwboCvhbcbBsdbbc" ++
  "bjikggbcbBlbcbghkLyzHbbpBynBJnDyEhbflHoDXkDvnBPfFZtWlMUbVxhBfbkeDdbkgBecgkCskkbhbvftBAmDnDxCxeCf" ++
  "hrCmflcoJCaiBVqBqjNFrebhbcbLfBtdreiPgDKuEdfndjhkceGYyBucxjEmCiJmkBncCwiEivCsFyumDjjzFfDhbCtbccbc" ++
  "ccebmbbbhbCnbecibhbBcbebfbbdhbNccLgcBBapfbpBQmBfIrhbrchbcbfIfBtdockecMiBfrCgfbBWahbebcbpbHpcqBpC" ++
  "yekecBEfCqCyCjHmebBbbcbbcbbkbebbbbgbebbbbbbdbcbbcbbbbbbbbbbcbbcebhbebebbbkbrfdbfbrCacKkBseDwmpcp" ++
  "bpbBlkGsCeBdnBsejhcogFyBLwfqdndEmmDlhmebpmeCeikgBoiBeccDaNcmocfdfdhjBddlfgkkgiihjFrbCdBlkBNqCLFc" ++
  "BgGDthIocINqoLBlEPjUwCFyHHzBOTMrJgLECu"

def decimalZeros : List Nat := numbers <|
  "BwCKuCQiCYiDOoDTmDYkEDiEIgENeEScEXaFByFGwFKyFPwFSyGEaGHcJBcJCyJOwJUeKAyKBoKIyKMqKSeKSuCKXsCLYeCM" ++
  "AaCMIaCMJgCMMyCNCyDSPkDUSeDXYmDZEcDZJkDZMcDZSaEADcEAQqEAVoEBKiEBOqEBSyECJoECNwEDRkEEBgEEEiFHGaFH" ++
  "JsFHPgGWRmGWRwGWSgGWSqGWTaHAGmHAXcHDHwHKJg"

/-- Digits that have no place in a decimal number, such as superscripts. -/
def looseDigitRuns : List Nat := numbers <|
  "GwcfbHBzjCLcbCMvbdggkBLujljljDlbkjbbYgjbjbjDHVxeBOmjSvjDHBxl"

def isWordChar (c : Char) : Bool :=
  let n := c.toNat
  if n < 128 then c.isAlphanum || c == '_' else inRuns wordRuns n

def isPrintable (c : Char) : Bool :=
  let n := c.toNat
  if n < 127 then 32 ≤ n else !inRuns hiddenRuns n

def decimalValue? (c : Char) : Option Nat :=
  let n := c.toNat
  if n < 128 then if c.isDigit then some (n - 48) else none
  else (decimalZeros.find? fun z => z ≤ n && n < z + 10).map (n - ·)

def isDigitLike (c : Char) : Bool :=
  (decimalValue? c).isSome || inRuns looseDigitRuns c.toNat

end BeliefLogic.Text
