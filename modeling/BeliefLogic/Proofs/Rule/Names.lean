import BeliefLogic.Proofs.Rule.Rows

/-!
# Names of messages

If no variable of a rule ends in a digit, the name of a message says where it was given, and no name
is bound twice.
-/

namespace BeliefLogic

open Outcome List Operation

namespace Text

/-- A text does not end in a digit. -/
def EndsPlain (s : String) : Prop := s.toList.rtakeWhile Char.isDigit = []

instance : DecidablePred EndsPlain := fun _ => inferInstanceAs (Decidable (_ = _))

theorem toList_natural (n : ℕ) : (natural n).toList = Nat.toDigits 10 n := by
  simp [natural, digits]

theorem natural_inj {n k : ℕ} (h : natural n = natural k) : n = k := by
  have hlist := congrArg String.toList h
  rw [toList_natural, toList_natural] at hlist
  simpa using congrArg (fun ds => Nat.ofDigitChars 10 ds 0) hlist

theorem isDigit_of_mem_natural {n : ℕ} {ch : Char} (h : ch ∈ (natural n).toList) :
    ch.isDigit = true := by
  rw [toList_natural] at h
  exact Nat.isDigit_of_mem_toDigits (by omega) (by omega) h

theorem EndsPlain.append {v : String} (h : EndsPlain v) (s : String) :
    EndsPlain (s ++ "_" ++ v) := by
  simp only [EndsPlain, rtakeWhile, reverse_eq_nil_iff] at h
  rw [EndsPlain, String.toList_append, rtakeWhile, reverse_append, takeWhile_append, h]
  simp [eq_comm (a := 0)]

end Text

/-- The goal or the variable that gives a name of a stem and digits. -/
def Node.ofParts? : List Char → List Char → Option Node
  | 'f' :: '_' :: _, ds | 'b' :: '_' :: _, ds => some (.goal (Nat.ofDigitChars 10 ds 0))
  | 'f' :: 'b' :: '_' :: v, _ | 'p' :: '_' :: v, _ :: _ => some (.var (String.ofList v))
  | _, _ => none

/-- The goal or the variable that gives a name. -/
def Node.ofName? (t : String) : Option Node :=
  ofParts? (t.toList.rdropWhile Char.isDigit) (t.toList.rtakeWhile Char.isDigit)

theorem Node.ofName?_append {s d : String} (h : Text.EndsPlain s)
    (hd : ∀ ch ∈ d.toList, ch.isDigit = true) : ofName? (s ++ d) = ofParts? s.toList d.toList := by
  have htake : (s ++ d).toList.rtakeWhile Char.isDigit = d.toList := by
    simp only [Text.EndsPlain, rtakeWhile, reverse_eq_nil_iff] at h
    rw [String.toList_append, rtakeWhile, reverse_append,
      takeWhile_append_of_pos (by simpa using hd), h]
    simp
  have hdrop := rdropWhile_append_rtakeWhile (p := Char.isDigit) (l := (s ++ d).toList)
  rw [htake, String.toList_append, append_cancel_right_eq, ← String.toList_append] at hdrop
  rw [ofName?, hdrop, htake]

theorem Node.ofName?_plain {s : String} (h : Text.EndsPlain s) :
    ofName? s = ofParts? s.toList [] := by
  simpa using ofName?_append (d := "") h (by simp)

variable {c : Circuit} {x y v m : String} {body : List Goal} {q : Request} {ops ops' : List Operation}
  {ns ns' : List Node} {j g : ℕ} {gs : List ℕ}

theorem ofName?_message (hv : Text.EndsPlain v) (j : ℕ) :
    Node.ofName? (c.message j v) = some (.goal j) := by
  rw [Circuit.message, Node.ofName?_append (hv.append _) fun _ => Text.isDigit_of_mem_natural]
  by_cases h : v ∈ c.outputs j <;> simp [h, Node.ofParts?, Text.toList_natural]

section Chains

variable {β : Type} [DecidableEq β] {last : String} {other : β → String} {bs : List β}

/-- The names of the products along a list. -/
def chainNames (last : String) (other : β → String) : List β → List String
  | [] => []
  | b :: bs => chainName last other b bs :: chainNames last other bs

theorem mem_chainNames {t : String} (h : t ∈ chainNames last other bs) :
    t = last ∨ ∃ b ∈ bs, t = other b := by
  induction bs with
  | nil => cases h
  | cons b bs ih =>
    rw [chainNames, mem_cons, chainName] at h
    grind

theorem nodup_chainNames (hbs : bs.Nodup) (hinj : ∀ a b, other a = other b → a = b)
    (hlast : ∀ b, other b ≠ last) : (chainNames last other bs).Nodup := by
  induction bs with
  | nil => exact nodup_nil
  | cons b bs ih =>
    obtain ⟨hb, hbs⟩ := nodup_cons.1 hbs
    refine nodup_cons.2 ⟨fun hmem => ?_, ih hbs⟩
    have hne : some b ≠ (b :: bs).getLast? := by
      cases bs with
      | nil => cases hmem
      | cons b' bs =>
        rw [getLast?_cons_cons]
        exact fun h => hb (mem_of_getLast? h.symm)
    rw [chainName, if_neg hne] at hmem
    rcases mem_chainNames hmem with heq | ⟨b', hb', heq⟩
    · exact hlast b heq
    · exact hb (hinj b b' heq ▸ hb')

end Chains

/-- The names of the products of messages to a variable. -/
abbrev productNames (v : String) (j : ℕ) : List ℕ → List String :=
  chainNames ("fb" ++ "_" ++ v) fun g => "p" ++ "_" ++ v ++ (Text.natural j ++ Text.natural g)

/-- The names of the products with sums of weights. -/
abbrev weightNames (y : String) : List String → List String :=
  chainNames ("w" ++ "_" ++ y) fun m => "p_" ++ m ++ "_" ++ y

theorem ofName?_of_mem_productNames {t : String} (hv : Text.EndsPlain v)
    (h : t ∈ productNames v j gs) : Node.ofName? t = some (.var v) := by
  rcases mem_chainNames h with rfl | ⟨g, -, rfl⟩
  · rw [Node.ofName?_plain (hv.append _)]
    simp [Node.ofParts?]
  · rw [Node.ofName?_append (hv.append _) fun ch hch => by
      rw [String.toList_append, mem_append] at hch
      exact hch.elim Text.isDigit_of_mem_natural Text.isDigit_of_mem_natural]
    cases hds : Nat.toDigits 10 j with
    | nil => simp at hds
    | cons d ds => simp [Text.toList_natural, hds, Node.ofParts?]

theorem ofName?_of_mem_weightNames {t : String} {ms : List String} (hy : Text.EndsPlain y)
    (h : t ∈ weightNames y ms) : Node.ofName? t = none := by
  rcases mem_chainNames h with rfl | ⟨m, -, rfl⟩
  all_goals
    rw [Node.ofName?_plain (hy.append _)]
    simp [Node.ofParts?]

theorem nodup_productNames (h : gs.Nodup) : (productNames v j gs).Nodup := by
  refine nodup_chainNames h (fun a b h => ?_) fun a h => ?_
  · simp only [String.append_right_inj] at h
    exact Text.natural_inj h
  · simp only [← String.toList_inj, String.toList_append] at h
    simp at h

theorem nodup_weightNames {ms : List String} (h : ms.Nodup) : (weightNames y ms).Nodup := by
  refine nodup_chainNames h (fun a b h => ?_) fun a h => ?_
  · simpa [String.append_assoc] using h
  · simp only [← String.toList_inj, String.toList_append] at h
    simp at h

/-- A name is given by one of some nodes. -/
def Node.Give (ns : List Node) (t : String) : Prop := ∃ z ∈ ns, ofName? t = some z

namespace Node.Give

variable {t : String} (h : Give ns t)
include h

theorem mono (hsub : ns ⊆ ns') : Give ns' t := by
  obtain ⟨z, hz, ht⟩ := h
  exact ⟨z, hsub hz, ht⟩

theorem mem {z : Node} (ht : ofName? t = some z) : z ∈ ns := by
  obtain ⟨z', hz, ht'⟩ := h
  obtain rfl : z = z' := Option.some.inj (ht.symm.trans ht')
  exact hz

theorem disjoint (h' : Give ns' t) (hdisj : ns.Disjoint ns') : False := by
  obtain ⟨z, hz, ht⟩ := h
  exact hdisj hz (h'.mem ht)

end Node.Give

/-- What gives the names of the messages for a request. -/
def Sends.Names (ns : List Node) (t : String) : Request → Prop
  | .goal _ _ => Node.Give ns t
  | .var v _ => Node.Give (.var v :: ns) t
  | .times v j _ gs => Node.Give ns t ∨ t ∈ productNames v j gs

section

variable (hc : c.Describes x y body)
include hc

/-- The names for one goal that a variable asks, and those for the others. -/
theorem Sends.names_append {ts : List String} (hv : Text.EndsPlain v)
    (hs : Passes c (.goal g v) m ops ns) (hdisj : ns.Disjoint ns')
    (h : (ops.map target).Nodup ∧ ∀ t ∈ ops.map target, Node.Give ns t)
    (h' : ts.Nodup ∧ ∀ t ∈ ts, Node.Give ns' t ∨ t ∈ productNames v j gs) :
    (ops.map target ++ ts).Nodup ∧
      ∀ t ∈ ops.map target ++ ts, Node.Give (ns ++ ns') t ∨ t ∈ productNames v j gs := by
  rw [forall_mem_append]
  refine ⟨h.1.append h'.1 fun t ht ht' => ?_,
    fun t ht => .inl ((h.2 t ht).mono (subset_append_left ..)),
    fun t ht => (h'.2 t ht).imp_left fun hgive => hgive.mono (subset_append_right ..)⟩
  rcases h'.2 t ht' with hgive | hmem
  · exact (h.2 t ht).disjoint hgive hdisj
  · exact hs.name_notMem hc trivial ((h.2 t ht).mem (ofName?_of_mem_productNames hv hmem))

/-- The messages that pass for a request have different names. -/
theorem Sends.names (hends : ∀ v g, c.Stands v g → Text.EndsPlain v) (h : Passes c q m ops ns)
    (hq : Distinct q) : (ops.map target).Nodup ∧ ∀ t ∈ ops.map target, Names ns t q := by
  have hall := h
  induction h with
  | outside hno => exact absurd trivial hno
  | head | done => simp
  | assigned | row | preimage =>
    exact ⟨nodup_singleton _, forall_mem_singleton.2
      ⟨_, mem_cons_self, ofName?_message (hends _ _ hall.stands) _⟩⟩
  | forward _ _ _ _ _ _ hs ih | call _ _ _ _ _ _ hs ih | backward _ _ _ _ _ _ hs ih =>
    have hname := ofName?_message (c := c) (hends _ _ hall.stands)
    obtain ⟨hnd, hnames⟩ := ih trivial hs
    rw [map_append, forall_mem_append]
    refine ⟨hnd.append (nodup_singleton _) fun t ht ht' => ?_,
      fun t ht => (hnames t ht).mono (subset_cons_self ..),
      forall_mem_singleton.2 ⟨_, mem_cons_self, hname _⟩⟩
    obtain rfl := mem_singleton.1 ht'
    exact (nodup_cons.1 (hall.located hc trivial).1).1 ((hnames _ ht).mem (hname _))
  | ask _ hnd hs hs' ih ih' =>
    have hv := hends _ _ hs.stands
    obtain ⟨hnodup, hnames⟩ := names_append hc hv hs
      (disjoint_of_nodup_append (hall.located hc trivial).1) (ih trivial hs)
      (ih' (nodup_cons.1 (hnd trivial)).2 hs')
    rw [map_append]
    refine ⟨hnodup, fun t ht => ?_⟩
    rcases hnames t ht with hgive | hmem
    · exact hgive.mono (subset_cons_self ..)
    · exact ⟨_, mem_cons_self, ofName?_of_mem_productNames hv hmem⟩
  | @factor v j _ g gs _ _ _ _ _ _ hs hs' ih ih' =>
    have hgs := (nodup_cons.1 hq).2
    have hv := hends _ _ hs.stands
    obtain ⟨hrest, hnames⟩ := ih' hgs hs'
    have hproducts : (productName v j g gs :: productNames v j gs).Nodup := nodup_productNames hq
    have hmem : productName v j g gs ∈ productNames v j (g :: gs) := mem_cons_self
    rw [map_append, map_cons, target_act]
    refine names_append hc hv hs (disjoint_of_nodup_append (hall.located hc hq).1) (ih trivial hs)
      ⟨nodup_cons.2 ⟨fun ht => ?_, hrest⟩, forall_mem_cons.2
        ⟨.inr hmem, fun t ht => (hnames t ht).imp_right (mem_cons_of_mem _)⟩⟩
    rcases hnames _ ht with hgive | hmem'
    · exact hs'.name_notMem hc hgs (hgive.mem (ofName?_of_mem_productNames hv hmem))
    · exact (nodup_cons.1 hproducts).1 hmem'

end

theorem Weighs.map_target {ms : List String} {p out : String} (h : Weighs y ms p out ops) :
    ops.map target = weightNames y ms := by
  induction h with
  | done => rfl
  | more _ ih => rw [map_cons, ih]; rfl

section

variable (hc : c.Describes x y body) (hends : ∀ v g, c.Stands v g → Text.EndsPlain v)
  (hone : c.Assigns) (hsep : ∀ j, ∀ v ∈ c.inputs (j + 1), v ∉ c.outputs (j + 1))
include hc hends hone hsep

/-- The messages left out are different, and have names that are given by new nodes. -/
theorem SendsRest.names {extra : ℕ} {seen ms : List String} {nss : List (List Node)}
    (hextra : ∀ v, ¬c.Stands v extra) (h : SendsRest c body extra seen ms ops nss)
    (hplain : ∀ o ∈ ops, o.Plain) (hx : x ∉ ops.map target) {L : List Node} (hL : c.Region L)
    (hseen : Node.variables L = seen) :
    (ops.map target).Nodup ∧ (∀ t ∈ ops.map target, ∃ ns, Node.Give ns t ∧ L.Disjoint ns) ∧
      ms.Nodup ∧ ∀ m ∈ ms, m ∈ ops.map target ∨ m = x ∧ .goal 0 ∉ L := by
  induction h generalizing L with
  | done => simp
  | @more _ v m ops ns ms ops' _ hbody hv hs hrest ih =>
    simp only [mem_append, or_imp, forall_and] at hplain
    simp only [map_append, mem_append, not_or] at hx
    have hpass := hs.passes_of_separate hc hsep hplain.1
    have hvL : .var v ∉ L := by rwa [← Node.mem_variables, hseen]
    have hdisj := hpass.disjoint hL.sealed hvL
    have hregion := hpass.region hc hone (hextra v) (hc.exists_stands hbody)
    obtain ⟨hnd', hnames', hms, hmem⟩ := ih hplain.2 hx.2 (hL.append hregion hdisj)
      (by rw [Node.variables_append, hseen])
    obtain ⟨hnd, hnames⟩ := hpass.names hc hends trivial
    have hapart : (ops.map target).Disjoint (ops'.map target) := fun t ht ht' => by
      obtain ⟨ns', hgive, hdisj'⟩ := hnames' t ht'
      exact (hnames t ht).disjoint hgive (disjoint_append_left.1 hdisj').2
    have hm : m ∈ ops.map target ∨ m = x ∧ .goal 0 ∈ ns := by
      simpa [Sends.Given, hc.inputs_head] using hpass.mem_targets
    have hzero : .goal 0 ∈ ns → .goal 0 ∉ L := fun h hL => hdisj hL (mem_cons_of_mem _ h)
    rw [map_append, forall_mem_append]
    refine ⟨hnd.append hnd' hapart, ⟨fun t ht => ⟨_, hnames t ht, hdisj⟩, fun t ht => ?_⟩,
      nodup_cons.2 ⟨fun hmem' => ?_, hms⟩, forall_mem_cons.2 ⟨?_, fun z hz => ?_⟩⟩
    · obtain ⟨ns', hgive, hdisj'⟩ := hnames' t ht
      exact ⟨ns', hgive, (disjoint_append_left.1 hdisj').1⟩
    · rcases hmem m hmem' with hm' | ⟨rfl, hgoal⟩
      · rcases hm with hm | ⟨rfl, -⟩
        · exact hapart hm hm'
        · exact hx.2 hm'
      · rcases hm with hm | ⟨-, hm⟩
        · exact hx.1 hm
        · exact hgoal (by simp [hm])
    · exact hm.imp (mem_append_left _) (And.imp_right hzero)
    · exact (hmem z hz).imp (mem_append_right _) (And.imp_right fun h hL => h (by simp [hL]))

/-- The operations of a rule bind different names. -/
theorem Emits.nodup_targets {out : String} (h : Emits c body out ops)
    (hplain : ∀ o ∈ ops, o.Plain) (hx : x ∉ ops.map target) : (ops.map target).Nodup := by
  obtain ⟨hy, hs, hrest, -, hweigh⟩ := h
  rename_i y' m ns ops ms nss ops' ops''
  obtain rfl : y = y' := by simpa [hc.outputs_head] using hy
  simp only [mem_append, or_imp, forall_and] at hplain
  simp only [map_append, mem_append, not_or] at hx
  have hpass := hs.passes_of_separate hc hsep hplain.1.1
  have hstands := hpass.exists_stands
  have hregion := hpass.region hc hone hc.not_stands_head (hc.exists_stands_output hstands)
  obtain ⟨hnd, hnames⟩ := hpass.names hc hends trivial
  obtain ⟨hnd', hnames', hms, -⟩ := hrest.names hc hends hone hsep hc.not_stands_extra
    hplain.1.2 hx.1.2 hregion rfl
  rw [map_append, map_append, hweigh.map_target]
  refine (hnd.append hnd' fun t ht ht' => ?_).append (nodup_weightNames hms) fun t ht ht' => ?_
  · obtain ⟨ns', hgive, hdisj⟩ := hnames' t ht'
    exact (hnames t ht).disjoint hgive hdisj
  · obtain ⟨z, hz⟩ : ∃ z, Node.ofName? t = some z := by
      rcases mem_append.1 ht with ht | ht
      · obtain ⟨z, -, hz⟩ := hnames t ht
        exact ⟨z, hz⟩
      · obtain ⟨_, ⟨z, -, hz⟩, -⟩ := hnames' t ht
        exact ⟨z, hz⟩
    rw [ofName?_of_mem_weightNames (hends y _ hstands.choose_spec) ht'] at hz
    cases hz

end

end BeliefLogic
