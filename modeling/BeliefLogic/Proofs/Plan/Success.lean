import BeliefLogic.Proofs.Plan.Numbers

/-!
# Evaluations that come to an end

What has to be so that an evaluation comes to an end.
-/

namespace BeliefLogic

open Outcome List

variable {α σ β γ : Type} {m : Matrix α} {p : Plan} {b : β} {act : Run α σ β}
  {inputs : List (Matrix α)}

namespace Run

/-- Under some settings a run ends with a result, from every state. -/
def Ends (s : Settings α) (act : Run α σ β) (b : β) : Prop :=
  ∀ t : World α × σ, t.1.settings = s → ∃ u, act t = .ok b u ∧ u.1.settings = s

variable {s : Settings α}

theorem Ends.unique [Inhabited σ] {b' : β} (h : Ends s act b) (h' : Ends s act b') : b = b' := by
  obtain ⟨u, hu, -⟩ := h ({ settings := s }, default) rfl
  obtain ⟨u', hu', -⟩ := h' ({ settings := s }, default) rfl
  rw [hu] at hu'
  cases hu'
  rfl

theorem ends_pure {b : β} : Ends s (pure b : Run α σ β) b := fun t ht => ⟨t, rfl, ht⟩

theorem Ends.bind {f : β → Run α σ γ} {c : γ} (h : Ends s act b) (hf : Ends s (f b) c) :
    Ends s (act >>= f) c := by
  intro t ht
  obtain ⟨u, hu, hs⟩ := h t ht
  obtain ⟨v, hv, hs⟩ := hf u hs
  exact ⟨v, bind_ok.2 ⟨b, u, hu, hv⟩, hs⟩

theorem Ends.ite {c : Prop} [Decidable c] {act' : Run α σ β} (h : c → Ends s act b)
    (h' : ¬c → Ends s act' b) : Ends s (if c then act else act') b := by
  split
  · next hc => exact h hc
  · next hc => exact h' hc

theorem ends_lift {x : Except Error β} (h : x = .ok b) : Ends s (lift x : Run α σ β) b :=
  fun t ht => ⟨t, lift_ok.2 ⟨h, rfl⟩, ht⟩

theorem ends_settings : Ends s (settings : Run α σ _) s :=
  fun t ht => ⟨t, settings_ok.2 ⟨ht, rfl⟩, ht⟩

theorem ends_print {text : String} : Ends s (print text : Run α σ _) () :=
  fun _ ht => ⟨_, modify_ok.2 rfl, ht⟩

theorem ends_say {text : String} : Ends s (say text : Run α σ _) () := ends_print

theorem ends_note (severity : Severity) (text : String) :
    Ends s (note severity text : Run α σ _) () :=
  fun _ ht => ⟨_, modify_ok.2 rfl, ht⟩

theorem ends_update (f : σ → σ) : Ends s (update f : Run α σ _) () :=
  fun t ht => ⟨(t.1, f t.2), update_ok.2 rfl, ht⟩

theorem ends_require {c : Bool} (h : c = true) (e : Refusal) :
    Ends s (require c e : Run α σ _) () :=
  fun t ht => ⟨t, require_ok.2 ⟨h, rfl⟩, ht⟩

theorem ends_forIn {ι : Type} {xs : List ι} {f : ι → PUnit → Run α σ (ForInStep PUnit)}
    (h : ∀ x ∈ xs, Ends s (f x ⟨⟩) (.yield ⟨⟩)) : Ends s (forIn xs ⟨⟩ f) ⟨⟩ := by
  induction xs with
  | nil => exact ends_pure
  | cons x xs ih =>
    rw [forIn_cons]
    obtain ⟨hfirst, hrest⟩ := forall_mem_cons.1 h
    exact hfirst.bind (ih hrest)

theorem ends_reportCopy {copy : Except Error (DenseCopy γ)} :
    Ends s (reportCopy copy : Run α σ _) () := by
  unfold reportCopy
  split
  · exact ends_settings.bind (.ite (fun _ => ends_note _ _) fun _ => ends_pure)
  · exact ends_pure

section

variable [Scalar α]

theorem ends_reportProduct (m n : Matrix α) : Ends s (reportProduct m n : Run α σ _) () := by
  unfold reportProduct
  split
  · exact ends_settings.bind ends_reportCopy
  · exact ends_pure

theorem ends_reportWeighting (m n : Matrix α) : Ends s (reportWeighting m n : Run α σ _) () :=
  ends_settings.bind (.ite (fun _ => ends_reportCopy) fun _ => ends_pure)

theorem ends_reportAction (b : Bindings α) (a : Action) :
    Ends s (reportAction b a : Run α σ _) () := by
  unfold reportAction
  split
  · split
    · exact ends_reportProduct _ _
    · exact ends_pure
  · split
    · exact ends_reportWeighting _ _
    · exact ends_pure
  · exact ends_pure

end

theorem ends_tellStep (st : Step) : Ends s (tellStep st : Evaluating α _) () :=
  ends_settings.bind (.ite (fun _ => ends_print) fun _ => ends_pure)

theorem ends_tellPlan (what : String)
    (hs : s.traceFunctions = true → ∃ lines, p.lines s.dialect s.shownDepth 0 = .ok lines) :
    Ends s (tellPlan what p : Evaluating α _) () := by
  refine ends_settings.bind (.ite (fun hf => ?_) fun _ => ends_pure)
  obtain ⟨lines, hl⟩ := hs hf
  exact (ends_settings.bind (ends_lift hl)).bind ends_say

theorem ends_requireId (id : ℕ) : Ends s (requireId (some id) : Run α σ ℕ) id := ends_pure

theorem ends_changeCell (id : ℕ) (f : Cell α → Cell α) : Ends s (changeCell id f) () :=
  ends_update _

end Run

open Run

/-- Every column of a regular database has a name or stands for none. -/
theorem Database.Regular.name_ok {db : Database α} {n : ℕ} (hdb : db.Regular n) {k : ℕ} (hk : k < n) (type : Option String) :
    ∃ name, db.schema.name type k = .ok name := by
  obtain ⟨symbols, hs, hn⟩ := hdb.untyped
  have hpos : position? (symbols.size + 1) k = some k := position?_natCast (by omega)
  cases k with
  | zero =>
    exact ⟨none, by simp only [hs, Schema.name, Schema.table, bind, Except.bind, Symbols.name, hpos]⟩
  | succ i =>
    exact ⟨symbols.names[i]?, by
      simp only [hs, Schema.name, Schema.table, bind, Except.bind, Symbols.name, hpos]⟩

section

variable [ExactScalar α] {s : Settings α} {db : Database α} {n h : ℕ}

omit [ExactScalar α] in
/-- The entries of a matrix over a regular database can be listed. -/
theorem Database.Regular.matrixSymbols_ok (hdb : db.Regular n) (hm : m.Shaped h n) :
    ∃ rows, db.matrixSymbols m none = .ok rows := by
  have hrow (r : Row α) (hr : ∀ e ∈ r, e.1 < n) (d : Dictionary (Option String) α) :
      ∃ d', (r.foldlM (fun d e => return d.put (← db.schema.name (some thing) e.1) e.2) d :
        Except Error _) = .ok d' := by
    induction r generalizing d with
    | nil => exact ⟨d, rfl⟩
    | cons e r ih =>
      obtain ⟨hfirst, hrest⟩ := forall_mem_cons.1 hr
      obtain ⟨name, hname⟩ := hdb.name_ok hfirst (some thing)
      obtain ⟨d', hd'⟩ := ih hrest (d.put name e.2)
      refine ⟨d', ?_⟩
      rw [foldlM_cons, then_ok]
      exact ⟨d.put name e.2, by simp [hname], hd'⟩
  have hrows : ∀ r ∈ m.rows.toList, ∃ d, db.rowSymbols r none = .ok d ∧ True := by
    intro r hr
    obtain ⟨d, hd⟩ := hrow r ((Matrix.shaped_iff.1 hm).2.2 r hr) {}
    exact ⟨d, hd, trivial⟩
  obtain ⟨rows, hok, -⟩ := exists_except_mapM hrows
  exact ⟨rows, hok⟩

namespace Run

theorem ends_symbolsText (hdb : db.Regular n) (hm : m.Shaped h n) :
    ∃ text, Ends s (symbolsText db m : Run α σ _) text := by
  obtain ⟨rows, hrows⟩ := hdb.matrixSymbols_ok hm
  exact ⟨_, (ends_lift hrows).bind ends_pure⟩

theorem ends_checkDefined (m : Matrix α) (context : String) :
    Ends s (checkDefined m context : Run α σ _) () := by
  refine ends_settings.bind (.ite (fun _ => ends_require ?_ _) fun _ => ends_pure)
  simp

theorem ends_tellStored (hdb : db.Regular n) (hm : m.Shaped h n)
    (hs : s.traceOperations = true → ∃ k, s.tracedEntries = .upTo k) :
    Ends s (tellStored db m) () := by
  refine ends_settings.bind (.ite (fun hop => ?_) fun _ => ends_pure)
  have hlast : Ends s (if s.traceMaxima then (do
      print ("max " ++ greatestText m ++ " "); say "") else say "" : Evaluating α _) () :=
    .ite (fun _ => ends_print.bind ends_say) fun _ => ends_say
  obtain ⟨k, hk⟩ := hs hop
  obtain ⟨text, htext⟩ := ends_symbolsText hdb hm
  refine ends_print.bind ((ends_lift (b := decide (k < m.stored)) ?_).bind ?_)
  · rw [hk]
    rfl
  · exact .ite (fun _ => htext.bind (ends_print.bind hlast)) fun _ => hlast

theorem ends_checkStored (st : Step) (m : Matrix α) : Ends s (checkStored st m) () :=
  ends_settings.bind (.ite (fun _ => ends_checkDefined _ _) fun _ => ends_pure)

theorem ends_tellValues (hdb : db.Regular n) (hin : ∀ x ∈ inputs, ∃ h, x.Shaped h n)
    (hm : m.Shaped h n) : Ends s (tellValues db inputs m) () := by
  refine ends_settings.bind (.ite (fun _ => ?_) fun _ => ends_pure)
  obtain ⟨text, htext⟩ := ends_symbolsText hdb hm
  refine Ends.bind (ends_forIn fun p hp => ?_) (htext.bind ends_say)
  obtain ⟨hx, hxs⟩ := hin p.1 (fst_mem_of_mem_zipIdx hp)
  obtain ⟨text, htext⟩ := ends_symbolsText hdb hxs
  exact htext.bind (ends_say.bind ends_pure)

/-- The evaluation of a plan ends with what its action ends with. -/
theorem ends_invoked (hdb : db.Regular n) (hp : p.Listed s) (hin : ∀ x ∈ inputs, ∃ h, x.Shaped h n)
    {act : Evaluating α (Matrix α)} (hact : Ends s act m) (hm : m.Shaped h n) :
    Ends s (invoked db p inputs act) m := by
  obtain ⟨id, hid⟩ := Option.isSome_iff_exists.1 hp.1
  refine (ends_tellPlan _ hp.2).bind (hact.bind ?_)
  rw [hid]
  exact (ends_requireId id).bind <| (ends_changeCell id _).bind <| (ends_tellPlan _ hp.2).bind <|
    (ends_tellValues hdb hin hm).bind ends_pure

/-- The evaluation of a step ends with what its action ends with. -/
theorem ends_evaluated (hdb : db.Regular n) {st : Step} (hst : st.Listed s)
    {act : Evaluating α (Bindings α)} {b : Bindings α} (hact : Ends s act b)
    (hb : b.value st.target = .ok m) (hm : m.Shaped h n) : Ends s (evaluated db st act) b := by
  obtain ⟨id, hid⟩ := Option.isSome_iff_exists.1 hst.1
  refine (ends_tellStep st).bind (hact.bind ((ends_lift hb).bind ?_))
  rw [hid]
  exact (ends_requireId id).bind <| (ends_changeCell id _).bind <|
    (ends_tellStored hdb hm hst.2).bind <| (ends_checkStored st m).bind ends_pure

end Run

end

end BeliefLogic
