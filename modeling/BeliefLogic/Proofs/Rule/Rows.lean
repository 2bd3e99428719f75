import BeliefLogic.Proofs.Plan.Rowwise
import BeliefLogic.Proofs.Rule.Value

/-!
# Rows of planned rules

A message has a row for each input exactly if the head was visited for it.
-/

namespace BeliefLogic

open Outcome Bindings List

variable {z v out : String} {full : String → Bool} {ops : List Operation} {body : List Goal}

namespace Operation

/-- Whether the value of an operation has a row for each input. -/
def isFull (full : String → Bool) : Operation → Bool
  | .act _ a => a.isFull full
  | .call _ x _ => full x

/-- A row for each input on the right needs one on the left. -/
def Aligned (full : String → Bool) : Operation → Prop
  | .act _ a => a.Aligned full
  | .call _ _ _ => True

/-- Which variables have a row for each input after an operation. -/
def fill (full : String → Bool) (o : Operation) : String → Bool :=
  Function.update full o.target (o.isFull full)

/-- Which variables have a row for each input after operations. -/
def fillAll (full : String → Bool) (ops : List Operation) : String → Bool := ops.foldl fill full

/-- Every operation is aligned when its turn comes. -/
def AllAligned (full : String → Bool) : List Operation → Prop
  | [] => True
  | o :: ops => o.Aligned full ∧ AllAligned (o.fill full) ops

variable {ops' : List Operation}

@[simp] theorem fillAll_nil : fillAll full [] = full := rfl

@[simp] theorem fillAll_cons (o : Operation) :
    fillAll full (o :: ops) = fillAll (o.fill full) ops := rfl

@[simp] theorem fillAll_append : fillAll full (ops ++ ops') = fillAll (fillAll full ops) ops' :=
  foldl_append

theorem allAligned_append :
    AllAligned full (ops ++ ops') ↔ AllAligned full ops ∧ AllAligned (fillAll full ops) ops' := by
  induction ops generalizing full with
  | nil => simp [AllAligned]
  | cons o ops ih => simp [AllAligned, ih, and_assoc]

theorem fill_target (o : Operation) : o.fill full o.target = o.isFull full :=
  Function.update_self ..

theorem fillAll_of_notMem (hz : z ∉ ops.map target) : fillAll full ops z = full z := by
  induction ops generalizing full with
  | nil => rfl
  | cons o ops ih =>
    rw [map_cons, mem_cons, not_or] at hz
    rw [fillAll_cons, ih hz.2, fill, Function.update_of_ne hz.1]

end Operation

open Operation

/-- Aligned steps work row by row, if the plans of their calls do. -/
theorem Step.allRowwise_of_operations {ts : List Step} {y : String}
    (hal : AllAligned full (ts.map Step.operation))
    (hy : fillAll full (ts.map Step.operation) y = true)
    (hcalls : ∀ i x m d q, .call i x m d q ∈ ts → q.Rowwise) : Step.AllRowwise full ts y := by
  induction ts generalizing full with
  | nil => exact hy
  | cons t ts ih =>
    have hfill : t.operation.fill full = t.fill full := by cases t <;> rfl
    rw [map_cons, AllAligned, hfill] at hal
    rw [map_cons, fillAll_cons, hfill] at hy
    refine ⟨?_, ih hal.2 hy fun i x m d q h => hcalls i x m d q (mem_cons_of_mem _ h)⟩
    cases t with
    | act i a => exact hal.1
    | call i x m d q => exact hcalls i x m d q mem_cons_self

namespace Sends

variable {c : Circuit} {x y : String} {q : Request} {m : String} {ns : List Node}

/-- A request that goes away from where variables are computed. -/
def Leaves (c : Circuit) : Request → Prop
  | .goal g v => c.source v ≠ some g
  | .var v g => c.source v = some g
  | .times v _ _ gs => ∀ g ∈ gs, c.source v ≠ some g

/-- A request away from where variables are computed never gets to the head. -/
theorem head_notMem (hc : c.Describes x y body) (h : Passes c q m ops ns) (hq : Leaves c q) :
    .goal 0 ∉ ns := by
  induction h with
  | outside hno => exact absurd trivial hno
  | @head v hv => exact absurd ((hc.coherent.source_head v).2 hv) hq
  | assigned | row | preimage => simp
  | @forward j v u mode m ops ns hv => exact absurd ((hc.coherent.source_goal v j).2 hv) hq
  | @call j v u mode m ops ns hv => exact absurd ((hc.coherent.source_goal v j).2 hv) hq
  | @backward j _ u _ _ _ _ _ _ hout _ _ _ _ ih =>
    have hu : u ∈ c.outputs (j + 1) := by simp [hout]
    simpa using ih ((hc.coherent.source_goal u j).2 hu)
  | @ask v j g gs _ _ _ _ _ _ hnb _ _ _ ih ih' =>
    have hasked (i : ℕ) (hi : i ∈ g :: gs) : c.source v ≠ some i := by
      have hmem : some i ∈ c.neighbours v j := by
        rw [hnb]
        exact mem_map_of_mem hi
      have hij := (Circuit.mem_neighbours.1 hmem).2
      have hsource : c.source v = some j := hq
      simpa [hsource, eq_comm] using hij
    rw [mem_append, not_or]
    exact ⟨ih (hasked g mem_cons_self), ih' fun i hi => hasked i (mem_cons_of_mem _ hi)⟩
  | done => simp
  | factor _ _ ih ih' =>
    rw [mem_append, not_or]
    exact ⟨ih (hq _ mem_cons_self), ih' fun i hi => hq i (mem_cons_of_mem _ hi)⟩

/-- A variable asks the goal that computes it first. -/
theorem leaves_rest {j g : ℕ} {gs : List ℕ} (hnb : c.neighbours v j = some g :: gs.map some)
    (hnd : (g :: gs).Nodup) :
    ∀ i ∈ gs, c.source v ≠ some i := by
  intro i hi hsource
  by_cases hij : i = j
  · have hmem : some i ∈ c.neighbours v j := by
      rw [hnb]
      exact mem_cons_of_mem _ (mem_map_of_mem hi)
    exact (Circuit.mem_neighbours.1 hmem).2 hij
  · have hhead : (c.neighbours v j).head? = some (some i) := by
      rw [Circuit.neighbours, hsource]
      simp [hij]
    rw [hnb] at hhead
    obtain rfl : g = i := by simpa using hhead
    exact (nodup_cons.1 hnd).1 hi

/-- An input that the head gives, or what a product starts with. -/
def Given (c : Circuit) (m : String) (ns : List Node) : Request → Prop
  | .times _ _ p _ => m = p
  | _ => m ∈ c.inputs 0 ∧ .goal 0 ∈ ns

/-- A message is bound on the way, unless it was there before. -/
theorem mem_targets (h : Passes c q m ops ns) : m ∈ ops.map target ∨ Given c m ns q := by
  induction h with
  | outside hno => exact absurd trivial hno
  | head hv => exact .inr ⟨hv, mem_singleton_self _⟩
  | assigned | forward | call | row | preimage | backward => simp
  | @ask _ _ _ _ m m' _ _ _ _ _ _ _ _ ih ih' =>
    rw [map_append, mem_append]
    rcases ih' with hmem | heq
    · exact .inl (.inr hmem)
    · obtain rfl : m' = m := heq
      exact ih.imp .inl fun h => ⟨h.1, mem_append_left _ h.2⟩
  | done => exact .inr rfl
  | factor _ _ ih ih' =>
    rw [map_append, map_cons, mem_append, mem_cons]
    rcases ih' with hmem | heq
    · exact .inl (.inr (.inr hmem))
    · exact .inl (.inr (.inl heq))

/-- Operations are aligned, and a message has a row for each input exactly if the head was visited.
-/
def Filled (c : Circuit) (full : String → Bool) (m : String) (ops : List Operation)
    (ns : List Node) : Request → Prop
  | .times v _ p gs => (∀ g ∈ gs, c.source v ≠ some g) → p ∉ ops.map target →
      AllAligned full ops ∧ fillAll full ops m = full p
  | _ => AllAligned full ops ∧ fillAll full ops m = decide (.goal 0 ∈ ns)

/-- Names that operations bind are different, and not those of inputs. -/
structure Fresh (c : Circuit) (ops : List Operation) : Prop where
  nodup : (ops.map target).Nodup
  inputs : ∀ v ∈ c.inputs 0, v ∉ ops.map target

theorem Fresh.append {ops' : List Operation} (h : Fresh c (ops ++ ops')) :
    Fresh c ops ∧ Fresh c ops' ∧ ∀ z ∈ ops.map target, z ∉ ops'.map target := by
  obtain ⟨hnd, hin⟩ := h
  rw [map_append] at hnd hin
  obtain ⟨h1, h2, hdisj⟩ := nodup_append'.1 hnd
  exact ⟨⟨h1, fun v hv hmem => hin v hv (mem_append_left _ hmem)⟩,
    ⟨h2, fun v hv hmem => hin v hv (mem_append_right _ hmem)⟩, fun z hz hz' => hdisj hz hz'⟩

theorem Fresh.inputs_full (h : Fresh c ops)
    (hin : ∀ v ∈ c.inputs 0, full v = true) : ∀ v ∈ c.inputs 0, fillAll full ops v = true :=
  fun v hv => (fillAll_of_notMem (h.inputs v hv)).trans (hin v hv)

theorem filled_step {u t : String} {j : ℕ} {o : Operation}
    (hcon : AllAligned full ops ∧ fillAll full ops z = decide (.goal 0 ∈ ns))
    (hal : ∀ full, o.Aligned full) (ht : o.target = t) (ho : ∀ full, o.isFull full = full z) :
    AllAligned full (ops ++ [o]) ∧
      fillAll full (ops ++ [o]) t = decide (Node.goal 0 ∈ Node.goal (j + 1) :: .var u :: ns) := by
  subst ht
  refine ⟨allAligned_append.2 ⟨hcon.1, hal _, trivial⟩, ?_⟩
  rw [fillAll_append, fillAll_cons, fillAll_nil, fill_target, ho, hcon.2]
  simp

/-- Which messages have a row for each input. -/
theorem filled (hc : c.Describes x y body) (h : Passes c q m ops ns)
    (hin : ∀ v ∈ c.inputs 0, full v = true) (hops : Fresh c ops) : Filled c full m ops ns q := by
  induction h generalizing full with
  | outside hno => exact absurd trivial hno
  | head hv => exact ⟨trivial, hin _ hv⟩
  | assigned | row | preimage =>
    refine ⟨⟨trivial, trivial⟩, ?_⟩
    rw [fillAll_cons, fillAll_nil]
    exact (fill_target _).trans (by simp [isFull])
  | forward _ _ _ _ _ _ _ ih =>
    exact filled_step (ih hin hops.append.1) (fun _ => trivial) rfl
      fun _ => by simp [isFull]
  | call _ _ _ _ _ _ _ ih =>
    exact filled_step (ih hin hops.append.1) (fun _ => trivial) rfl fun _ => rfl
  | backward _ _ _ _ _ _ _ ih =>
    exact filled_step (ih hin hops.append.1) (fun _ => trivial) rfl
      fun _ => by simp [isFull]
  | @ask v j g gs m m' ops ops' ns ns' hnb hnd hs hs' ih ih' =>
    obtain ⟨hfirst, hrest, hdisj⟩ := hops.append
    have hleaves := leaves_rest hnb (hnd trivial)
    have hm : m ∉ ops'.map target := by
      rcases hs.mem_targets with hmem | hmem
      · exact hdisj m hmem
      · exact hrest.inputs m hmem.1
    obtain ⟨hal, hfull⟩ := ih hin hfirst
    obtain ⟨hal', hfull'⟩ := ih' (hfirst.inputs_full hin) hrest hleaves hm
    refine ⟨allAligned_append.2 ⟨hal, hal'⟩, ?_⟩
    have hns' : .goal 0 ∉ ns' := hs'.head_notMem hc hleaves
    rw [fillAll_append, hfull', hfull]
    simp [hns']
  | done => exact fun _ _ => ⟨trivial, rfl⟩
  | @factor v j p g gs m _ ops ops' ns _ hs _ ih ih' =>
    intro hleaves hp
    generalize productName v j g gs = next at *
    obtain ⟨hfirst, hrest, hdisj⟩ := hops.append
    have hrest : Fresh c ([.act next (.hadamard p m)] ++ ops') := hrest
    obtain ⟨hone, hrest', hnext'⟩ := hrest.append
    rw [map_append, mem_append, not_or] at hp
    obtain ⟨hal, hfull⟩ := ih hin hfirst
    have hns : .goal 0 ∉ ns := hs.head_notMem hc (hleaves g mem_cons_self)
    -- What comes from a goal that uses the variable is a single row.
    have hm : fillAll full ops m = false := by simpa [hns] using hfull
    have hp' : fillAll full ops p = full p := fillAll_of_notMem hp.1
    have hsecond := hone.inputs_full (hfirst.inputs_full hin)
    obtain ⟨hal', hfull'⟩ := ih' hsecond hrest'
      (fun i hi => hleaves i (mem_cons_of_mem _ hi)) (hnext' next (by simp))
    refine ⟨allAligned_append.2 ⟨hal, fun h => ?_, hal'⟩, ?_⟩
    · rw [hm] at h
      cases h
    · rw [fillAll_append]
      refine hfull'.trans ((fill_target (.act next (.hadamard p m))).trans ?_)
      simp [isFull, hm, hp']

end Sends

/-- A variable that visits the input by all its goals visits the head. -/
theorem Sends.head_mem {c : Circuit} {x y m : String} {j : ℕ}
    {ns : List Node} (hc : c.Describes x y body)
    (h : Passes c (.var v j) m ops ns) (hj : v = x → j ≠ 0) (hx : .var x ∈ .var v :: ns) :
    .goal 0 ∈ ns := by
  have hstands : c.Stands x 0 := by simp [Circuit.Stands, hc.inputs_head]
  rcases mem_cons.1 hx with heq | hx
  · obtain rfl : x = v := Node.var.inj heq
    refine (h.visits hc).asked 0 (Circuit.mem_neighbours.2 ⟨.inl ?_, (hj rfl).symm⟩)
    exact (hc.coherent.source_head x).2 hstands
  · exact (h.visits hc).closed x 0 hx hstands

/-- If the input is visited, a message left out has a row for each input. -/
theorem SendsRest.filled {c : Circuit} {x y : String} {extra : ℕ}
    {seen ms : List String} {nss : List (List Node)}
    (hc : c.Describes x y body) (h : SendsRest c body extra seen ms ops nss) (hextra : extra ≠ 0)
    (hplain : ∀ o ∈ ops, o.Plain) (hin : ∀ v ∈ c.inputs 0, full v = true)
    (hops : Sends.Fresh c ops) :
    AllAligned full ops ∧ (∀ m ∈ ms, m ∈ ops.map target ∨ m ∈ c.inputs 0) ∧
      ∀ ns ∈ nss, .var x ∈ ns → ∃ m ∈ ms, fillAll full ops m = true := by
  induction h generalizing full with
  | done => simp [AllAligned]
  | @more _ _ m ops ns _ ops' _ _ _ hs _ ih =>
    obtain ⟨hfirst, hafter, hdisj⟩ := hops.append
    simp only [mem_append, or_imp, forall_and] at hplain
    have hpass := hs.passes hc hplain.1 hfirst.nodup trivial
    obtain ⟨hal, hm⟩ : AllAligned full ops ∧ fillAll full ops m = decide (.goal 0 ∈ ns) :=
      hpass.filled hc hin hfirst
    obtain ⟨hal', hms, hhead⟩ := ih hplain.2 (hfirst.inputs_full hin) hafter
    have hmem : m ∈ ops.map target ∨ m ∈ c.inputs 0 := hpass.mem_targets.imp_right And.left
    refine ⟨allAligned_append.2 ⟨hal, hal'⟩, ?_, ?_⟩
    · rw [map_append]
      refine forall_mem_cons.2 ⟨hmem.imp_left (mem_append_left _), fun z hz => ?_⟩
      exact (hms z hz).imp_left (mem_append_right _)
    · rw [fillAll_append, forall_mem_cons]
      refine ⟨fun hx => ⟨m, mem_cons_self, ?_⟩, fun ns hns hx => ?_⟩
      · have hkeep : m ∉ ops'.map target := hmem.elim (hdisj m) (hafter.inputs m)
        rw [fillAll_of_notMem hkeep, hm]
        simpa using hpass.head_mem hc (fun _ => hextra) hx
      · obtain ⟨z, hz, hfull⟩ := hhead ns hns hx
        exact ⟨z, mem_cons_of_mem _ hz, hfull⟩

/-- A weighed result has a row for each input if it or a weight has. -/
theorem Weighs.filled {ms : List String} {y p : String}
    (h : Weighs y ms p out ops) (hms : ∀ m ∈ ms, m ∉ ops.map target)
    (hnd : (ops.map target).Nodup) (hfull : full p = true ∨ ∃ m ∈ ms, full m = true) :
    AllAligned full ops ∧ fillAll full ops out = true := by
  induction h generalizing full with
  | done => simpa [AllAligned] using hfull
  | @more m ms p _ _ _ ih =>
    generalize weightName y m ms = next at *
    rw [map_cons] at hms hnd
    obtain ⟨hfresh, hnd⟩ := nodup_cons.1 hnd
    have hkeep (z : String) (hz : z ∈ ms) :
        (Operation.act next (.weighted m p)).fill full z = full z := by
      have := hms z (mem_cons_of_mem _ hz)
      rw [mem_cons, not_or] at this
      exact Function.update_of_ne this.1 ..
    have hfill : (Operation.act next (.weighted m p)).fill full next = (full m || full p) :=
      (fill_target (.act next (.weighted m p))).trans (by simp [isFull])
    have hnow : (Operation.act next (.weighted m p)).fill full next = true ∨
        ∃ z ∈ ms, (Operation.act next (.weighted m p)).fill full z = true := by
      rw [hfill, Bool.or_eq_true]
      rcases hfull with hp | ⟨z, hz, hfull⟩
      · exact .inl (.inr hp)
      · rcases mem_cons.1 hz with rfl | hz
        · exact .inl (.inl hfull)
        · exact .inr ⟨z, hz, (hkeep z hz).trans hfull⟩
    obtain ⟨hal, hout⟩ := ih
      (fun z hz hmem => hms z (mem_cons_of_mem _ hz) (mem_cons_of_mem _ hmem)) hnd hnow
    exact ⟨⟨trivial, hal⟩, hout⟩

/-- A rule's result has a row for each input, if the given variable is in the body. -/
theorem Emits.filled {c : Circuit} {x y : String}
    (hc : c.Describes x y body) (h : Emits c body out ops) (hx : x ∈ Goal.variablesOf body)
    (hplain : ∀ o ∈ ops, o.Plain) (hin : full x = true)
    (hops : Sends.Fresh c ops) :
    AllAligned full ops ∧ fillAll full ops out = true := by
  obtain ⟨hy, hs, hrest, hcover, hweigh⟩ := h
  rename_i y' m ns ops ms nss ops' ops''
  obtain rfl : y = y' := by simpa [hc.outputs_head] using hy
  have hin : ∀ v ∈ c.inputs 0, full v = true := by
    rw [hc.inputs_head]
    simpa using hin
  obtain ⟨hops, hlast, hdisj⟩ := hops.append
  obtain ⟨hfirst, hmiddle, hdisj'⟩ := hops.append
  simp only [mem_append, or_imp, forall_and] at hplain
  have hpass := hs.passes hc hplain.1.1 hfirst.nodup trivial
  obtain ⟨hal, hm⟩ : AllAligned full ops ∧ fillAll full ops m = decide (.goal 0 ∈ ns) :=
    hpass.filled hc hin hfirst
  obtain ⟨hal', hms, hhead⟩ := hrest.filled hc (Nat.succ_ne_zero _) hplain.1.2
    (hfirst.inputs_full hin) hmiddle
  have hmem : m ∈ ops.map target ∨ m ∈ c.inputs 0 := hpass.mem_targets.imp_right And.left
  have hweights : ∀ z ∈ ms, z ∉ ops''.map target := by
    intro z hz
    rcases hms z hz with hz | hz
    · exact hdisj z (by rw [map_append]; exact mem_append_right _ hz)
    · exact hlast.inputs z hz
  have hreached : fillAll (fillAll full ops) ops' m = true ∨
      ∃ z ∈ ms, fillAll (fillAll full ops) ops' z = true := by
    rw [Goal.variablesOf, mem_dedup, mem_flatMap] at hx
    obtain ⟨g, hg, hxg⟩ := hx
    have hvisited := hcover g hg x hxg
    simp only [mem_append, mem_flatMap, Node.mem_variables] at hvisited
    rcases hvisited with hvisited | ⟨ns', hns', hvisited⟩
    · refine .inl ?_
      rw [fillAll_of_notMem (hmem.elim (hdisj' m) (hmiddle.inputs m)), hm]
      simpa using hpass.head_mem hc (fun heq => absurd heq.symm hc.ne) hvisited
    · exact .inr (hhead ns' hns' hvisited)
  obtain ⟨hal'', hout⟩ := hweigh.filled hweights hlast.nodup hreached
  simp only [allAligned_append, fillAll_append]
  exact ⟨⟨⟨hal, hal'⟩, hal''⟩, hout⟩

variable {α : Type} [ExactScalar α] {s : Settings α} {db : Database α} {n : ℕ}

/-- The plan of a rule works row by row, if the given variable stands in the body, no name is bound
twice, and some row has a result. -/
theorem RulePlanned.rowwise {p : Program} {Q : Mode → ℤ → Plan → Prop} {mode : Mode} {d : ℤ}
    {r : Rule} {plan : Plan} (h : RulePlanned p Q mode d r plan) (hdb : db.Regular n)
    (hbinary : ∀ g ∈ r.body, p.definesGoal g = true → g.arity = 2)
    (hhead : ∀ head, r.head = some head → ∀ v ∈ head.args, v ∈ Goal.variablesOf r.body)
    (hcalls : ∀ m q, Q m (d + 1) q → q.isDistinct = true →
      (∃ x m', q.result s db [x] = .ok m') → q.Rowwise)
    (hdist : plan.isDistinct = true) {x m : Matrix α} (hm : plan.result s db [x] = .ok m) :
    plan.Rowwise := by
  obtain ⟨hc, hemits, hsteps, -⟩ := h
  rename_i c head body info out steps r'
  obtain ⟨u, b', hu, hnd, hbodies, hb', hout⟩ := Plan.runs_of_result hdist hm
  obtain ⟨v, hdesc, hargs⟩ := hc.describes hu
  have hran := Step.result_of_bindAll hb'
  have hbinary : ∀ g ∈ body, p.definesGoal g = true → g.arity = 2 :=
    fun g hg => hbinary g (hc.perm.mem_iff.1 hg)
  have humem : u ∈ head.args := by
    rcases hargs with ⟨hargs, -⟩ | ⟨hargs, -⟩ <;> simp [hargs]
  have hbody : u ∈ Goal.variablesOf body := by
    have := hhead head hc.head_eq u humem
    simpa [Goal.variablesOf, hc.perm.mem_iff] using this
  have hfresh : Sends.Fresh c (steps.map Step.operation) := by
    refine ⟨by simpa [Function.comp_def] using hnd, fun w hw hmem => ?_⟩
    obtain rfl : w = u := by simpa [hu] using hw
    simp only [map_map, mem_map, Function.comp_apply, Step.target_operation] at hmem
    obtain ⟨t, ht, htarget⟩ := hmem
    have := hemits.isVariableName_target hran hdb t ht
    rw [htarget, hc.names w humem] at this
    cases this
  obtain ⟨hal, hfull⟩ : AllAligned (fun z => z == u) (steps.map Step.operation) ∧
      fillAll (fun z => z == u) (steps.map Step.operation) out = true :=
    hemits.filled hdesc hbody (hc.plain_of_results hemits hran hdb hbinary) (by simp) hfresh
  refine ⟨u, hu, Step.allRowwise_of_operations hal hfull fun i y e k q hq => ?_⟩
  obtain ⟨b1, m1, hm1⟩ := hran _ hq
  obtain ⟨y1, -, hm1⟩ := then_ok.1 hm1
  exact hcalls e q (hsteps i y e k q hq).2 (hbodies _ hq) ⟨y1, m1, hm1⟩

end BeliefLogic
