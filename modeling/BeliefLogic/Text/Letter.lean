import BeliefLogic.Text.Classes

/-!
# Letter case

Upper-case letters and case maps, as stripes of every `step`-th code point over a span.
-/

namespace BeliefLogic.Text

/-- Stripes as (distance, span, step, shift), a shift being doubled, or less one. -/
def stripes (s : String) : List (Nat × Nat × Nat × Int) := go (numbers s)
where
  go : List Nat → List (Nat × Nat × Nat × Int)
    | out :: span :: step :: k :: ns =>
      (out, span, step, if k % 2 = 0 then (k / 2 : Nat) else -((k + 1) / 2 : Nat)) :: go ns
    | _ => []

def upperStripes : List (Nat × Nat × Nat × Int) := stripes <|
  "CnzbaDxwbabgbaBhCccacocacBucaaecadbbabccaaccaabbacdbabbbabcbadbbabbbabecaaccacccaaccaabbabccaaab" ++
  "adabahabacabacabacocacqcacabacccaabbabCecahbbabbbacccaacbabgcaLdccadabaiabagccaabbabccaaccaapbab" ++
  "ibaBjabaccbadwcafabacccaaabacBybaBwBgcajCccaamcacDqcacBlbaEHdBlbababafabaBBuDhbaDGsBqbaccbaMiFsc" ++
  "ajDscajhbaifbakhbaihbaifbalgcaihbaCudbamdbamdbamebaldbaKcabaeabadcbaccbacabadebaggcaacbacdbakbba" ++
  "fabaBapbatabaBFmzbaCSuBvbaBwccaabbacgcaacbababacabaicbabDscaiccaeabaBTYjBscatBacaFfmcadCicakecaa" ++
  "icaeccacccaducaadbabebabocaacbababagabafccaBcabaBHAhzbaBUzBnbaFgBjbaGakbabobabgbabbbaCQcBybaENlB" ++
  "fbaBGJwBfbaBMMqzbaBazbaBazbaBaccaaabacabacbbacdbabhbaBazbaBabbabdbachbabgbaBbbbabdbabebababadgba" ++
  "BbzbaBazbaBazbaBazbaBazbaBazbaBeybaBhybaBhybaBhybaBhybaBhabaGNlBhbaDBizbagzbagzba"

/-- Other lower-case forms, as (distance, span, step, shift). -/
def lowerShifts : List (Nat × Nat × Nat × Int) := stripes <|
  "CnzbCmDxwbCmbgbCmBhBuccdecccocccBsccbabJhaeccdabQeacccbabPwaabcbbbPuaabccabGcaabPoaabPqaabcbabPu" ++
  "aabPybabQgaabQcaabcdabQgaabQkbabQmaeccbabQuaabcbabQucabcbabQuaabcbbbQsacccbabQwaabcdabchabeaabcb" ++
  "abeaabcbabeaqcccqcccabeacccbabHlaabEhaBmccbabJzbqcchabBFYkaabcbabMnaabBFYecabcbabOzaabFiaabFmaic" ++
  "cLdcccdabciabIygabCybcbCwbabEybbbEwbqbCmbibCmBjabqiwccfabEpcabcbabnaabcccbJzapbGeaBfbCmBwBgccjCa" ++
  "ccbabBeamcccDqcccBlbDsEHdBlbVMubabVMufabVMuBBuDbbEKZoafbqDGsBqbIXjccbIXjMiFsccjabWNtbDqccjhbpifb" ++
  "pkhbpihbpifbplgcpihbpyhbpihbpihbpibbpabbFraabrldbGpaabrlbbpabbHrmbbpabbIpaabnlbbJvabbJraabrLlabW" ++
  "GfdabYUvaabYLngabCeBtpbBgtabcBFmzbCaCSuBvbDsBwabcbabBFUjaabLHjaabBFTdceccbabBFXfaabBFUvaabBFXlaa" ++
  "bBFXjbabccabcibbBFZxaDucciccceabcBTYjBscctBaccFfmccdCicckcccbabEANvaicceabcbabEVChccccdsccbabEVE" ++
  "laabEVFhaabEVEzaabEVEfaabEVElbabEVApaabEVClaabEVAvaabCTkaoccbabDraabEVEjaabEARvacccgabcfcccBcabc" ++
  "BHAhzbCmBUzBnbDcFgBjbDcGakbDabobDabgbDabbbDaCQcBybEyENlBfbCmBGJwBfbCmBULkBhbCq"

/-- Other upper-case forms of one character, in the same way. -/
def upperShifts : List (Nat × Nat × Nat × Int) := stripes <|
  "DtzbClCgabCFeBqwbClbgbClaabJibBucbbabRvbecbcocbcBscbcecbaabXbaabPacccbcabbdabbfabbcabHmdabbaabMo" ++
  "dabKacecbcabbeabbcabbdccbcabbdabbbabEifabbaabdbabbaabdbabbaabdbocbaabGbbqcbcabbaabdbabbdBmcbdqcb" ++
  "iabbcbbBFZybabbeicbaabBFXmaabBFXgaabBFXkaabQdaabPvbbbPtbabPnbabPpaabEVFidabPtaabEVFababPxbabEVCi" ++
  "aabEVEmbabQbaabQfaabEVEmaabBFUkaabEVEgcabQfbabBFUwaabQjcabQlhabBFTecabQtbabEVEkaabQtdabEVCmaabQt" ++
  "aabFhabbQraabFlfabQvkabEVAwaabEVAqGkabGmBrccbdabbdcbKaBuabCxacbCvbqbClaabCjaibClaabExabbEvbabEta" ++
  "abEjdabDpaabEdaabpbwcbaabGpaabGdaaboaabIxbabHjcabbcabbCaBfbClapbGdbBgcbjCacbcmcbaabBdbDqcbBxBlbD" ++
  "rEHdBqbIXkccbIXkBDgfbpDFuabSNbaabSMzaabSMhabbSMdaabSMfaabSLraabSHlaabEAIuJgabEANwdabLHkqabEARwEk" ++
  "FscbfabEnfDqcbahbqifbqkhbqihbqifbqlgcqihbqibbFsadbGqabbHsabbJwabbIqabbJsBybbqmabVIfrbbqobbqdaboN" ++
  "wabCdBhpbBfeabbBGlzbBzCTqBvbDrbabbdabBFYjaabBFYdbecbgabbcabbkDucbiccbeabbmBlbVMtbabVMtfabVMtBTWd" ++
  "BscbtBacbFfmcbdCicbkccbcicbeabbeccbaabDscscblocbeccbgabbfccbBcabbBHcabCTjBcDbbEKZnBFQfzbClBVhBnb" ++
  "DbFgBjbDbFzkbCzbobCzbgbCzbbbCzCRbBybExEMfBfbClBGJwBfbClBULmBhbCp"

def stripe? : List (Nat × Nat × Nat × Int) → Nat → Option Int
  | (out, span, step, b) :: stripes, n =>
    if n < out then none
    else if n ≤ out + span then if (n - out) % step == 0 then some b else none
    else stripe? stripes (n - (out + span + 1))
  | [], _ => none

def isUpper (c : Char) : Bool :=
  let n := c.toNat
  if n < 128 then 65 ≤ n && n ≤ 90
  else (stripe? upperStripes n).isSome

def shiftBy (table : List (Nat × Nat × Nat × Int)) (c : Char) : Char :=
  match stripe? table c.toNat with
  | some delta => Char.ofNat ((c.toNat : Int) + delta).toNat
  | none => c

def lowerChar (c : Char) : Char :=
  if c.toNat < 128 then c.toLower else shiftBy lowerShifts c

def upperChar (c : Char) : Char :=
  if c.toNat < 128 then c.toUpper else shiftBy upperShifts c

/-- Upper-case forms of several characters. -/
def spelledOut : Array (Nat × List Nat) := #[
  (223, [83, 83]), (329, [700, 78]), (496, [74, 780]), (912, [921, 776, 769]),
  (944, [933, 776, 769]), (1415, [1333, 1362]), (7830, [72, 817]), (7831, [84, 776]),
  (7832, [87, 778]), (7833, [89, 778]), (7834, [65, 702]), (8016, [933, 787]),
  (8018, [933, 787, 768]), (8020, [933, 787, 769]), (8022, [933, 787, 834]), (8114, [8122, 921]),
  (8115, [913, 921]), (8116, [902, 921]), (8118, [913, 834]), (8119, [913, 834, 921]),
  (8124, [913, 921]), (8130, [8138, 921]), (8131, [919, 921]), (8132, [905, 921]),
  (8134, [919, 834]), (8135, [919, 834, 921]), (8140, [919, 921]), (8146, [921, 776, 768]),
  (8147, [921, 776, 769]), (8150, [921, 834]), (8151, [921, 776, 834]), (8162, [933, 776, 768]),
  (8163, [933, 776, 769]), (8164, [929, 787]), (8166, [933, 834]), (8167, [933, 776, 834]),
  (8178, [8186, 921]), (8179, [937, 921]), (8180, [911, 921]), (8182, [937, 834]),
  (8183, [937, 834, 921]), (8188, [937, 921]), (64256, [70, 70]), (64257, [70, 73]),
  (64258, [70, 76]), (64259, [70, 70, 73]), (64260, [70, 70, 76]), (64261, [83, 84]),
  (64262, [83, 84]), (64275, [1348, 1350]), (64276, [1348, 1333]), (64277, [1348, 1339]),
  (64278, [1358, 1350]), (64279, [1348, 1341])]

/-- The upper-case form that is spelled out, as of an iota below. -/
def spelledOut? (n : Nat) : Option (List Nat) :=
  if 8064 ≤ n ∧ n < 8112 then
    let block := (n - 8064) / 16
    some [7944 + 16 * block * (block + 1) + n % 8, 921]
  else (spelledOut.find? (·.1 == n)).map (·.2)

def casedRuns : List Nat := numbers <|
  "CnBagBaBvbkbebfxbBfbHnbeeIabBbHkeccddbbgbbdbbbubDfbFjiGkbBmjBpEFfBmbbfbcBrcdZwDicgDFujhBrcdCmBsC" ++
  "lnbBiDxKscgcBmcgcibbbbbbbBfcCbbhbbddbhdecgenfdbhKbbebckbbdfgbbbbbbebgebceffebrBgdcBFlCaCRuEucDzg" ++
  "edcmBmbbfbBTWcBusBcFeDabxdebChfcbbbfBbcdbBFpBrfjhDcBEAihmfBNtBagBaBTtDcDsBkeBkEmlbpbhbcblbpbhbcC" ++
  "OpBznBzEKzCmBGIqCmBMLkDhbCtbccbcccebmbbbhbCnbecibhbBcbebfbbdhbNcczbzbBfbzbBfbzbBfbzbBfbzbiCSykbu" ++
  "DThCqDAaBagBagBa"

/-- Characters passed over where the case of a neighbour counts. -/
def caseNeutralRuns : List Nat := numbers <|
  "BnbgblbBjbbbCtbebbbebccTjHkecebjcbbJrhHzbfbBxBtbbbcbcbbBsblgklbbBjbkvqbDxibkbeBhbbbBeBbDnlCglebc" ++
  "byyBrdBsbhcgiBpCgCdbbbeiebdhkcnbpbCgbeeibucBabccCfbececcddbBecdblcCfbefbcebucwgbbCgbcbbeibhclcBe" ++
  "bCjbmbBybdbCdbbdfdbehclcBdbCgbcbgbfcucBccCfceeibucBdbCubhdbbDmbchljDubcjjbbgCwcBbbbbbbCdobfbcflb" ++
  "BkjbDyebgbccczcedqenbccgbpbDqbXkdBKkdBdcBecBecCmcbhibcldbfbBtfBzbCncBibEodecjbgdIlccbCgbbhbbbbci" ++
  "gkcbBnbiBfBxeBwbbfbbfbBojmcBgeccbdCebbcdbbdCgiccCmgDedbnbhebgbdcByClnbBiDxRdbbdldndndncmfickbcbc" ++
  "fBxfbkbbnbqnBzBhEJrcEjdEvbpbDsBgBvbSbbBkedffbDpgDpdBQBubBWcgKkbDuebkbbBceDccoBiDabxdDzddcibdbebz" ++
  "cfbFvcBasnbBmizlBudBwbceccrbvcCogccccmbibBjblbBzbbdccfcbbBbbocfcbbDwfjdErbcbebBDZsbFrrWbqdbmqBib" ++
  "cbGnbhbgblbBjbbbBvbBtcCpbvdTtbIsbFtfBNpgbBqbjWkdbcfeBodebGjcWbeOxcFxlBxeEtbCcpBpbcckdBxecccbebkb" ++
  "BydBkfbiCkbmcCajkecbDrdcbbcgbGebdivcCfcdbBlhdfHnicdbbxbDggbbecbcJeegcbcBbcDhicbbcEcbbbcgbbDxdceb" ++
  "fJzjbcJwcbbebFoeccebBgkBogceibjgcdBunbcPqhbgbbDewchbcbcEsgdbbcbhbbCucdbbbNjcIBbjUStfChhjeBNvbClr" ++
  "CmcbcYGpebhbcEUgcbeGYuBucxUydjqchBeeFsdCYdCdeByibobwfbpCAihbrchbcbfKboOebCjeCFwhEfiEBffBSXXpbBeD" ++
  "sEyJg"

def isCased (c : Char) : Bool := inRuns casedRuns c.toNat

def isCaseNeutral (c : Char) : Bool := inRuns caseNeutralRuns c.toNat

def meetsCased (cs : List Char) : Bool := ((cs.dropWhile isCaseNeutral).head?.map isCased).getD false

/-- The lower-case form. A dotted I keeps its dot, a final sigma is special. -/
def lowerFrom (before : List Char) : List Char → List Char
  | [] => []
  | c :: cs =>
    let form := match c.toNat with
      | 0x130 => ['i', Char.ofNat 0x307]
      | 0x3A3 => [Char.ofNat (if meetsCased before && !meetsCased cs then 0x3C2 else 0x3C3)]
      | _ => [lowerChar c]
    form ++ lowerFrom (c :: before) cs

def lower (s : String) : String := String.ofList (lowerFrom [] s.toList)

/-- The upper-case form; letters without a capital are spelled out. -/
def upper (s : String) : String :=
  String.ofList (s.toList.flatMap fun c =>
    match spelledOut? c.toNat with
    | some form => form.map Char.ofNat
    | none => [upperChar c])

end BeliefLogic.Text
