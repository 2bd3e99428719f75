import BeliefLogic.Proofs.Plan.Sends

/-!
# Searches are derivations

Every successful search for a message derives it, with the steps that the search emits.
-/

namespace BeliefLogic

open Outcome Emit List

variable {xs vs weights : List String} {steps : List Step} {x y p : String}
  {goals : List (Option ℕ)} {body : List Goal}

/-- The plan of a call is known for its mode. -/
@[simp] def Step.CallsFrom (c : Messaging) : Step → Prop
  | .act _ (.plugin _ mode) => c.isPlugin mode = true
  | .act _ _ => True
  | .call _ _ mode depth body => depth = c.depth ∧ c.body mode = some body

/-- The steps on the way derive a message and connect the variables visited. -/
def Messaging.Sent (c : Messaging) (k : Circuit) (q : Request) (others : List String) (m : String)
    (e e' : Emission) : Prop :=
  ∃ steps ns, Sends k False q m (steps.map Step.operation) ns ∧
    e.Grows e' steps (others ++ Node.variables ns) ∧ ∀ s ∈ steps, s.CallsFrom c

theorem Emission.Matches.goal {e : Emission} {k : Circuit} (h : e.Matches k) {j : ℕ} {g : GoalFlow}
    (hg : e.flow.goal j = .ok g) :
    g.inputs = k.inputs j ∧ g.outputs = k.outputs j ∧ g.defined = k.defined j := by
  have hget := Flow.goal_ok.1 hg
  refine ⟨?_, ?_, h.defined j g hg⟩
  · rw [← h.wiring]; simp [Flow.wiring, hget]
  · rw [← h.wiring]; simp [Flow.wiring, hget]

theorem Node.variables_map_var (vs : List String) : Node.variables (vs.map .var) = vs := by
  induction vs with
  | nil => rfl
  | cons v vs ih => simpa using ih

namespace Messaging

variable {c : Messaging} {k : Circuit} {e e' : Emission} {here m message v : String}
  {depth fuel j : ℕ} {mode : Mode} {g : GoalFlow} {others : List String} {q : Request}

/-- Messages from several variables, one after the other. -/
theorem grows_mapM {f : String → Emit String} {ms : List String}
    (hf : ∀ x m e e', e.Matches k → f x e = .ok m e' →
      ∃ steps vs, e.Grows e' steps vs ∧ ∀ s ∈ steps, s.CallsFrom c) (hk : e.Matches k)
    (h : xs.mapM f e = .ok ms e') :
    ∃ steps vs, e.Grows e' steps vs ∧ ∀ s ∈ steps, s.CallsFrom c := by
  induction xs generalizing ms e with
  | nil =>
    obtain ⟨-, rfl⟩ := pure_ok.1 h
    exact ⟨[], [], .refl e, by simp⟩
  | cons x xs ih =>
    rw [mapM_cons] at h
    simp only [bind_ok] at h
    obtain ⟨m, e1, hm, ms', e2, hms, -, rfl⟩ := h
    obtain ⟨ss, vs, hg, hs⟩ := hf x m e e1 hk hm
    obtain ⟨ss', vs', hg', hs'⟩ := ih (hk.grows hg) hms
    exact ⟨ss ++ ss', vs ++ vs', hg.trans hg', forall_mem_append.2 ⟨hs, hs'⟩⟩

/-- A message through a relation that is defined outside. -/
theorem sent_outside (steps : List Step) (vs : List String) {ss : List String} {i : StepInfo}
    (hg : e.Grows e' (steps ++ [.act i (.plugin ss mode)]) (others ++ vs))
    (hs : ∀ s ∈ steps, s.CallsFrom c) (hmode : c.isPlugin mode = true) :
    c.Sent k q others m e e' := by
  refine ⟨steps ++ [.act i (.plugin ss mode)], vs.map .var, ?_, ?_, ?_⟩
  · rw [map_append]
    exact .outside id (mem_append_right _ (mem_singleton_self _))
  · rwa [Node.variables_map_var]
  · exact forall_mem_append.2 ⟨hs, forall_mem_singleton.2 hmode⟩

/-- What a search for messages from variables has to do with derivations. -/
def VariablesSent (c : Messaging) (k : Circuit) (fuel : ℕ) : Prop :=
  ∀ v j depth e e' m, e.Matches k → c.fromVariable fuel v j depth e = .ok m e' →
    c.Sent k (.var v j) [v] m e e'

/-- What a search for messages from goals has to do with derivations. -/
def GoalsSent (c : Messaging) (k : Circuit) (fuel : ℕ) : Prop :=
  ∀ j v depth e e' m, e.Matches k → c.fromGoal fuel j v depth e = .ok m e' →
    ∃ i, j = some i ∧ c.Sent k (.goal i v) [] m e e'

theorem sent_of_grows (ns : List Node) (hs : Sends k False q m (steps.map Step.operation) ns)
    (hg : e.Grows e' steps vs) (hv : others ++ Node.variables ns = vs)
    (hc : ∀ s ∈ steps, s.CallsFrom c) :
    c.Sent k q others m e e' :=
  ⟨steps, ns, hs, hv ▸ hg, hc⟩

theorem Sent.after {e1 : Emission} (hg : e.Grows e1 [] []) (h : c.Sent k q others m e1 e') :
    c.Sent k q others m e e' := by
  obtain ⟨steps, ns, hs, hgr, hc⟩ := h
  exact ⟨steps, ns, hs, hg.trans hgr, hc⟩

theorem single_ok (h : single xs = .ok x) : xs = [x] := by
  unfold single at h
  split at h
  · rw [Except.ok.inj h]
  · cases h

theorem require_ok {b : Bool} {x : Error} {u : Unit} :
    Emit.require b x e = .ok u e' ↔ b ∧ e = e' := by
  unfold Emit.require
  cases b <;> simp

theorem assigned_sent (hv : v ∈ k.outputs (j + 1)) (hin : k.inputs (j + 1) = [])
    (hm : k.mode? (j + 1) = some mode) (hname : message = k.message (j + 1) v)
    (h : c.assigned (j + 1) mode here v message depth e = .ok m e') :
    c.Sent k (.goal (j + 1) v) [] m e e' := by
  simp only [assigned, bind_ok, require_ok, Bool.and_eq_true, beq_iff_eq, decide_eq_true_eq] at h
  obtain ⟨_, _, ⟨⟨⟨hassign, harity⟩, hout⟩, rfl⟩, _, _, ⟨hconst, rfl⟩, _, _, hact, rfl, rfl⟩ := h
  obtain ⟨i, hg, htarget⟩ := act_ok hact
  subst hname
  refine sent_of_grows [.goal (j + 1)] ?_ hg rfl (by simp)
  simpa [Step.operation, htarget] using .assigned hv hin hm hassign harity hout hconst

theorem carried_sent {source : String} {e1 : Emission} (hv : v ∈ k.outputs (j + 1))
    (hin : k.inputs (j + 1) = [x]) (hm : k.mode? (j + 1) = some mode)
    (hdef : g.defined = k.defined (j + 1)) (hname : message = k.message (j + 1) v)
    (hsource : c.Sent k (.var x (j + 1)) [x] source e e1)
    (h : c.carried g mode here v message source depth e1 = .ok m e') :
    c.Sent k (.goal (j + 1) v) [] m e e' := by
  obtain ⟨steps, ns, hs, hgr, hc⟩ := hsource
  subst hname
  unfold carried at h
  split at h
  · next hd =>
    cases hbody : c.body mode with
    | none =>
      rw [hbody] at h
      exact (throw_ok.1 h).elim
    | some body =>
      rw [hbody] at h
      simp only [bind_ok] at h
      obtain ⟨_, _, hstep, rfl, rfl⟩ := h
      obtain ⟨s, hg, hop, hcall⟩ := step_ok hstep
      obtain ⟨i, rfl⟩ := hcall _ _ _ _ _ rfl
      refine sent_of_grows (.goal (j + 1) :: .var x :: ns) ?_ (hgr.trans hg) (by simp) ?_
      · rw [map_append, map_singleton, hop]
        exact .call hv hin False.elim hm (hdef ▸ hd) False.elim hs
      · simpa [hbody, or_imp, forall_and] using hc
  · next hd =>
    simp only [bind_ok] at h
    obtain ⟨_, _, hact, rfl, rfl⟩ := h
    obtain ⟨i, hg, htarget⟩ := act_ok hact
    refine sent_of_grows (.goal (j + 1) :: .var x :: ns) ?_ (hgr.trans hg) (by simp) ?_
    · have := Sends.forward hv hin False.elim hm (hdef ▸ Bool.eq_false_of_not_eq_true hd)
        False.elim hs
      simpa [htarget, Step.operation] using this
    · simpa [or_imp, forall_and] using hc

theorem weighed_sent (hv' : v ∈ k.inputs (j + 1)) (hout : k.outputs (j + 1) = [])
    (hm : k.mode? (j + 1) = some mode)
    (hname : message = k.message (j + 1) v) (h : c.weighed mode here v message depth e = .ok m e') :
    c.Sent k (.goal (j + 1) v) [] m e e' := by
  simp only [weighed, bind_ok] at h
  obtain ⟨type, e1, htype, _, _, hact, rfl, rfl⟩ := h
  obtain rfl := typeOf_ok htype
  obtain ⟨i, hg, htarget⟩ := act_ok hact
  split at hg
  · next hmode => exact sent_outside [] [] hg (by simp) hmode
  · subst hname
    refine sent_of_grows [.goal (j + 1)] ?_ hg rfl (by simp)
    simpa [Step.operation, htarget] using .row hv' hout hm False.elim

theorem summed_sent (hv : v ∉ k.outputs (j + 1)) (hv' : v ∈ k.inputs (j + 1))
    (hout : k.outputs (j + 1) = [y]) (huses : k.uses y = []) (hm : k.mode? (j + 1) = some mode)
    (hdef : g.defined = k.defined (j + 1)) (hname : message = k.message (j + 1) v)
    (h : summed g mode here v y message depth e = .ok m e') :
    c.Sent k (.goal (j + 1) v) [] m e e' := by
  simp only [summed, bind_ok, require_ok] at h
  obtain ⟨_, e1, hconnect, _, _, ⟨hd, rfl⟩, type, _, htype, _, _, hact, rfl, rfl⟩ := h
  obtain rfl := typeOf_ok htype
  obtain ⟨i, hg, htarget⟩ := act_ok hact
  subst hname
  refine sent_of_grows [.goal (j + 1), .var y] ?_ ((connect_ok hconnect).trans hg) rfl
    (by simp)
  simpa [Step.operation, htarget] using
    .preimage hv' hv hout huses hm (hdef ▸ by simpa using hd) False.elim

/-- The message to an output, if those from variables are derivations. -/
theorem toOutput_sent (ih : VariablesSent c k fuel) (hk : e.Matches k) (hv : v ∈ k.outputs (j + 1))
    (hin : g.inputs = k.inputs (j + 1)) (hdef : g.defined = k.defined (j + 1))
    (h : c.toOutput (fun x => c.fromVariable fuel x (j + 1) (depth + 1)) g (j + 1) v depth e =
      .ok m e') : c.Sent k (.goal (j + 1) v) [] m e e' := by
  simp only [toOutput, bind_ok] at h
  obtain ⟨message, e1, hname, mode, _, hmode, here, _, htext, h⟩ := h
  obtain ⟨hname, hgr⟩ := name_ok hname
  obtain ⟨rfl, hm⟩ := modeOf_ok hmode
  obtain rfl := goalText_ok htext
  have hk := hk.grows hgr
  have hm := hk.mode _ _ (.inr (ne_nil_of_mem hv)) hm
  have hname : message = k.message (j + 1) v := by rw [hname, Circuit.message, if_pos hv]
  refine .after hgr ?_
  split at h
  · next hempty => exact assigned_sent hv (by simpa [← hin] using hempty) hm hname h
  split at h
  · next hmode =>
    simp only [bind_ok] at h
    obtain ⟨sources, e2, hsources, _, _, hact, rfl, rfl⟩ := h
    have hask x m e e' (hk : e.Matches k)
        (h : c.fromVariable fuel x (j + 1) (depth + 1) e = .ok m e') :
        ∃ steps vs, e.Grows e' steps vs ∧ ∀ s ∈ steps, s.CallsFrom c := by
      obtain ⟨steps, ns, -, hgr, hc⟩ := ih _ _ _ _ _ _ hk h
      exact ⟨steps, _, hgr, hc⟩
    obtain ⟨steps, vs, hgr, hc⟩ := grows_mapM hask hk hsources
    obtain ⟨i, hg, -⟩ := act_ok hact
    exact sent_outside steps vs (by simpa using hgr.trans hg) hc hmode
  · simp only [bind_ok, lift_ok] at h
    obtain ⟨x, _, ⟨hx, rfl⟩, source, e2, hsource, h⟩ := h
    exact carried_sent hv (hin ▸ single_ok hx) hm hdef hname (ih _ _ _ _ _ _ hk hsource) h

/-- The message to an input, if those from variables are derivations. -/
theorem toInput_sent (ih : VariablesSent c k fuel) (hk : e.Matches k) (hv : v ∉ k.outputs (j + 1))
    (hv' : v ∈ k.inputs (j + 1)) (hout : g.outputs = k.outputs (j + 1))
    (hdef : g.defined = k.defined (j + 1))
    (h : c.toInput (fun x => c.fromVariable fuel x (j + 1) (depth + 1)) g (j + 1) v depth e =
      .ok m e') : c.Sent k (.goal (j + 1) v) [] m e e' := by
  simp only [toInput, bind_ok] at h
  obtain ⟨message, e1, hname, mode, _, hmode, here, _, htext, h⟩ := h
  obtain ⟨hname, hgr⟩ := name_ok hname
  obtain ⟨rfl, hm⟩ := modeOf_ok hmode
  obtain rfl := goalText_ok htext
  have hk := hk.grows hgr
  have hm := hk.mode _ _ (.inl (ne_nil_of_mem hv')) hm
  have hname : message = k.message (j + 1) v := by rw [hname, Circuit.message, if_neg hv]
  refine .after hgr ?_
  split at h
  · next hempty => exact weighed_sent hv' (by simpa [← hout] using hempty) hm hname h
  simp only [bind_ok, lift_ok] at h
  obtain ⟨y, _, ⟨hy, rfl⟩, flow, _, hflow, h⟩ := h
  obtain ⟨rfl, hget⟩ := variableFlow_ok hflow
  have hy : k.outputs (j + 1) = [y] := hout ▸ single_ok hy
  have huses : k.uses y = flow.uses := by
    rw [← hk.wiring]
    simp [Flow.wiring, hget]
  split at h
  · next hempty => exact summed_sent hv hv' hy (by simpa [huses] using hempty) hm hdef hname h
  · next hempty =>
    simp only [bind_ok] at h
    obtain ⟨source, e2, hsource, _, _, hact, rfl, rfl⟩ := h
    obtain ⟨steps, ns, hs, hgr, hc⟩ := ih _ _ _ _ _ _ hk hsource
    obtain ⟨i, hg, htarget⟩ := act_ok hact
    subst hname
    refine sent_of_grows (.goal (j + 1) :: .var y :: ns) ?_ (hgr.trans hg) (by simp) ?_
    · have := Sends.backward hv' hv hy (by simpa [huses] using hempty) hm False.elim hs
      simpa [htarget, Step.operation] using this
    · simpa [or_imp, forall_and] using hc

/-- The message from a goal, if those from variables are derivations. -/
theorem goalsSent_succ (ih : VariablesSent c k fuel) : GoalsSent c k (fuel + 1) := by
  intro j v depth e e' m hk h
  cases j with
  | none => simp [fromGoal] at h
  | some j =>
    refine ⟨j, rfl, ?_⟩
    rw [fromGoal] at h
    simp only [bind_ok] at h
    obtain ⟨g, e1, hg, _, e2, ht, h⟩ := h
    obtain ⟨rfl, hgoal⟩ := goalFlow_ok hg
    obtain ⟨hin, hout, hdef⟩ := Emission.Matches.goal hk hgoal
    have htell := tell_ok ht
    have hk := hk.grows htell
    cases j with
    | zero =>
      rw [if_pos rfl] at h
      split at h
      · next hv =>
        obtain ⟨rfl, rfl⟩ := pure_ok.1 h
        exact sent_of_grows [.goal 0] (.head (hin ▸ by simpa using hv)) htell rfl (by simp)
      · exact (throw_ok.1 h).elim
    | succ j =>
      rw [if_neg (Nat.succ_ne_zero j)] at h
      refine .after htell ?_
      split at h
      · next hv => exact toOutput_sent ih hk (hout ▸ by simpa using hv) hin hdef h
      next hv =>
      split at h
      · next hv' =>
        exact toInput_sent ih hk (hout ▸ by simpa using hv) (hin ▸ by simpa using hv') hout hdef h
      · exact (throw_ok.1 h).elim

theorem isVariableName_append {s t : String} (h : s ≠ "" ∧ isVariableName s = false) :
    isVariableName (s ++ t) = false := by
  cases hs : s.toList with
  | nil => exact absurd (String.toList_inj.1 (hs.trans String.toList_empty.symm)) h.1
  | cons c cs => simpa [isVariableName, hs] using h.2

theorem partialName_ok {j' : Option ℕ} (h : partialName goals j v j' e = .ok m e') :
    m = (if some j' = goals.getLast? then "fb" ++ "_" ++ v
      else "p" ++ "_" ++ v ++ (Text.natural j ++ numberOrNone j')) ∧ e.Grows e' [] [] := by
  unfold partialName at h
  split at h
  all_goals
    next hlast =>
    obtain ⟨rfl, hg⟩ := name_ok h
    simpa [hlast] using hg

/-- The product of the messages from goals, if those are derivations. -/
theorem times_sent (ih : GoalsSent c k fuel) (rest : List (Option ℕ))
    (hlast : rest ≠ [] → goals.getLast? = rest.getLast?) (hk : e.Matches k)
    (h : List.foldlM (m := Emit) (fun product j' => do
        let next ← partialName goals j v j'
        let factor ← c.fromGoal fuel j' v (depth + 1)
        act depth v here next (.hadamard product factor)
        return next) p rest e = .ok m e') :
    ∃ gs, rest = gs.map some ∧ c.Sent k (.times v j p gs) [] m e e' := by
  induction rest generalizing p e with
  | nil =>
    obtain ⟨rfl, rfl⟩ := pure_ok.1 h
    exact ⟨[], rfl, sent_of_grows [] .done (.refl e) rfl (by simp)⟩
  | cons j' rest ih' =>
    simp only [foldlM_cons, bind_ok] at h
    obtain ⟨next, e1, ⟨_, e2, hname, factor, e3, hfactor, _, _, hact, rfl, rfl⟩, h⟩ := h
    obtain ⟨hname, hg⟩ := partialName_ok hname
    have hk2 := hk.grows hg
    obtain ⟨i, rfl, steps, ns, hs, hgr, hc⟩ := ih _ _ _ _ _ _ hk2 hfactor
    obtain ⟨info, hact, htarget⟩ := act_ok hact
    obtain ⟨gs, rfl, steps', ns', hs', hgr', hc'⟩ := ih'
      (fun hne => (hlast (cons_ne_nil _ _)).trans (getLast?_cons_of_ne_nil hne))
      ((hk2.grows hgr).grows hact) h
    have hnext : next = productName v j i gs := by
      have hmap := hlast (cons_ne_nil _ _)
      rw [← map_cons, getLast?_map] at hmap
      simp [hname, chainName, hmap, @eq_comm _ (some i), numberOrNone]
    rw [hnext] at hs'
    refine ⟨i :: gs, rfl, .after hg (sent_of_grows (ns ++ ns') ?_
      ((hgr.trans hact).trans hgr') (by simp) ?_)⟩
    · have := Sends.factor (p := p) hs hs'
      simpa [Step.operation, htarget, hnext] using this
    · simpa [or_imp, forall_and] using ⟨hc, hc'⟩

/-- The message from a variable, if those from goals are derivations. -/
theorem variablesSent_succ (ih : GoalsSent c k fuel) : VariablesSent c k (fuel + 1) := by
  intro v j depth e e' m hk h
  rw [fromVariable] at h
  simp only [bind_ok] at h
  obtain ⟨_, e1, hconnect, flow, _, hflow, _, e2, ht, h⟩ := h
  have hconnect := connect_ok hconnect
  obtain ⟨rfl, hget⟩ := variableFlow_ok hflow
  have ht := tell_ok ht
  have hk1 := hk.grows hconnect
  have hneighbours : k.neighbours v j =
      (flow.source :: flow.users.map some).filter (· ≠ some j) := by
    unfold Circuit.neighbours
    rw [← hk1.wiring]
    simp [Flow.wiring, hget, VariableFlow.users]
  rw [← hneighbours] at h
  cases hlist : k.neighbours v j with
  | nil =>
    rw [hlist] at h
    exact (throw_ok.1 h).elim
  | cons first rest =>
    rw [hlist] at h
    simp only [bind_ok] at h
    obtain ⟨here, _, htext, start, e3, hstart, h⟩ := h
    obtain rfl := goalText_ok htext
    have hk2 := hk1.grows ht
    obtain ⟨i, rfl, steps, ns, hs, hgr, hc⟩ := ih _ _ _ _ _ _ hk2 hstart
    obtain ⟨gs, rfl, steps', ns', hs', hgr', hc'⟩ := times_sent ih rest (fun _ => rfl) (hk2.grows hgr) h
    refine sent_of_grows (ns ++ ns') ?_ (((hconnect.trans ht).trans hgr).trans hgr')
      (by simp) ?_
    · have := Sends.ask hlist False.elim hs hs'
      simpa using this
    · simpa [or_imp, forall_and] using ⟨hc, hc'⟩

/-- Every successful search is a derivation. -/
theorem goalsSent_and_variablesSent (c : Messaging) (k : Circuit) (fuel : ℕ) :
    GoalsSent c k fuel ∧ VariablesSent c k fuel := by
  induction fuel with
  | zero =>
    refine ⟨fun j v depth e e' m _ h => ?_, fun v j depth e e' m _ h => ?_⟩
    · simp [fromGoal] at h
    · simp [fromVariable] at h
  | succ fuel ih => exact ⟨goalsSent_succ ih.2, variablesSent_succ ih.1⟩

end Messaging

/-- The messages of variables not seen yet, and what each visits. -/
inductive SendsRest (c : Circuit) (body : List Goal) (extra : ℕ) :
    List String → List String → List Operation → List (List Node) → Prop where
  | done {seen} : SendsRest c body extra seen [] [] []
  /-- The message of a variable that is not seen yet. -/
  | more {seen v m ops ns ms ops' nss} : (∃ g ∈ body, v ∈ g.variableNames) → v ∉ seen →
      Sends c False (.var v extra) m ops ns →
      SendsRest c body extra (seen ++ Node.variables (.var v :: ns)) ms ops' nss →
      SendsRest c body extra seen (m :: ms) (ops ++ ops') ((.var v :: ns) :: nss)

/-- The name of a product of a result with sums of weights. -/
abbrev weightName (y : String) : String → List String → String :=
  chainName ("w" ++ "_" ++ y) fun m => "p_" ++ m ++ "_" ++ y

/-- The products of a result with the sums of weights. -/
inductive Weighs (y : String) : List String → String → String → List Operation → Prop where
  | done {m} : Weighs y [] m m []
  | more {m ms p out ops} : Weighs y ms (weightName y m ms) out ops →
      Weighs y (m :: ms) p out (.act (weightName y m ms) (.weighted m p) :: ops)

/-- A rule emits the message to its output, and products with sums of the rest. -/
inductive Emits (c : Circuit) (body : List Goal) : String → List Operation → Prop where
  | intro {y m ns ops ms nss ops' out ops''} : c.outputs 0 = [y] → Sends c False (.var y 0) m ops ns →
      SendsRest c body (body.length + 1) (Node.variables (.var y :: ns)) ms ops' nss →
      (∀ g ∈ body, ∀ v ∈ g.variableNames,
        v ∈ Node.variables (.var y :: ns) ++ nss.flatMap Node.variables) →
      Weighs y ms m out ops'' → Emits c body out (ops ++ ops' ++ ops'')

/-- The variables that are connected are those seen. -/
def Emission.Seen (e : Emission) (seen : List String) : Prop :=
  ∀ v f, e.flow.variableFlows.get? v = some f → (f.connected = true ↔ v ∈ seen)

theorem Emission.Seen.grows {e e' : Emission} {seen : List String} (h : e.Seen seen)
    (hg : e.Grows e' steps vs) : e'.Seen (seen ++ vs) := by
  intro v f hf
  rw [hg.flows, Option.map_eq_some_iff] at hf
  obtain ⟨f', hf', rfl⟩ := hf
  have := h v f' hf'
  split
  · next hv => simp [hv]
  · next hv => simp [hv, this]

namespace Messaging

variable {c : Messaging} {k : Circuit} {e e' : Emission}

/-- The messages of variables that are not connected. -/
theorem unconnected_sent {fuel extra : ℕ} (vs : List String) {seen found found' : List String}
    (hk : e.Matches k) (hseen : e.Seen seen) (hvs : ∀ v ∈ vs, ∃ g ∈ body, v ∈ g.variableNames)
    (h : List.foldlM (m := Emit) (fun found v => do
        if (← variableFlow v).connected then return found
        else return found ++ [← c.fromVariable fuel v extra 1]) found vs e = .ok found' e') :
    ∃ steps ms nss, found' = found ++ ms ∧
      SendsRest k body extra seen ms (steps.map Step.operation) nss ∧
      e.Grows e' steps (nss.flatMap Node.variables) ∧ (∀ s ∈ steps, s.CallsFrom c) ∧
      ∀ v ∈ vs, v ∈ seen ++ nss.flatMap Node.variables := by
  induction vs generalizing found seen e with
  | nil =>
    obtain ⟨rfl, rfl⟩ := pure_ok.1 h
    exact ⟨[], [], [], by simp, .done, .refl e, by simp, by simp⟩
  | cons v vs ih =>
    simp only [foldlM_cons, bind_ok] at h
    obtain ⟨found1, e1, ⟨f, _, hf, hfirst⟩, h⟩ := h
    obtain ⟨rfl, hget⟩ := variableFlow_ok hf
    have hv := hseen v f hget
    obtain ⟨hbody, hvs⟩ := forall_mem_cons.1 hvs
    split at hfirst
    · next hcon =>
      obtain ⟨rfl, rfl⟩ := pure_ok.1 hfirst
      obtain ⟨steps, ms, nss, hms, hrest, hg, hc, hall⟩ := ih hk hseen hvs h
      refine ⟨steps, ms, nss, hms, hrest, hg, hc, forall_mem_cons.2 ⟨?_, hall⟩⟩
      exact mem_append_left _ (hv.1 hcon)
    · next hcon =>
      simp only [bind_ok] at hfirst
      obtain ⟨m, e2, hm, rfl, rfl⟩ := hfirst
      obtain ⟨steps, ns, hs, hg, hc⟩ := (goalsSent_and_variablesSent c k fuel).2 _ _ _ _ _ _ hk hm
      obtain ⟨steps', ms, nss, rfl, hrest, hg', hc', hall⟩ := ih (hk.grows hg) (hseen.grows hg) hvs h
      refine ⟨steps ++ steps', m :: ms, (.var v :: ns) :: nss, by simp, ?_, ?_, ?_, ?_⟩
      · rw [map_append]
        exact .more hbody (fun hmem => hcon (hv.2 hmem)) hs hrest
      · exact hg.trans hg'
      · simpa [or_imp, forall_and] using ⟨hc, hc'⟩
      · refine forall_mem_cons.2 ⟨by simp, fun u hu => ?_⟩
        simpa using hall u hu

theorem weightedName_ok {m m' : String} {ms : List String}
    (hlast : weights.getLast? = (m :: ms).getLast?)
    (h : weightedName weights y m e = .ok m' e') : m' = weightName y m ms ∧ e.Grows e' [] [] := by
  rw [weightedName, hlast] at h
  unfold weightName chainName
  split at h
  all_goals
    next hm =>
    obtain ⟨rfl, hg⟩ := name_ok h
    simpa [hm] using hg

theorem weigh_ok (ms : List String) {m : String}
    (hlast : ms ≠ [] → weights.getLast? = ms.getLast?)
    (h : List.foldlM (m := Emit) (fun product weight => do
        let next ← weightedName weights y weight
        act 0 weight "PSEUDO" next (.weighted weight product)
        return next) p ms e = .ok m e') :
    ∃ steps, Weighs y ms p m (steps.map Step.operation) ∧ e.Grows e' steps [] ∧
      ∀ s ∈ steps, s.CallsFrom c := by
  induction ms generalizing p e with
  | nil =>
    obtain ⟨rfl, rfl⟩ := pure_ok.1 h
    exact ⟨[], .done, .refl e, by simp⟩
  | cons weight ms ih =>
    simp only [foldlM_cons, bind_ok] at h
    obtain ⟨next, e1, ⟨_, e2, hname, _, _, hact, rfl, rfl⟩, h⟩ := h
    obtain ⟨hname, hg⟩ := weightedName_ok (hlast (cons_ne_nil _ _)) hname
    obtain ⟨i, hgact, rfl⟩ := act_ok hact
    obtain ⟨steps, hw, hg', hc⟩ := ih
      (fun hne => (hlast (cons_ne_nil _ _)).trans (getLast?_cons_of_ne_nil hne)) h
    refine ⟨.act i (.weighted weight p) :: steps, ?_, ?_, ?_⟩
    · rw [hname] at hw
      simpa [Step.operation, hname] using Weighs.more hw
    · exact (hg.trans hgact).trans hg'
    · simpa using hc

/-- The extra goal has no variables, so the circuit stays. -/
theorem addExtra_ok {extra : ℕ} (hk : e.Matches k) (hlen : e.flow.goals.length = e.goals.length)
    (hextra : k.defined e.goals.length = false) (h : addExtra e = .ok extra e') :
    extra = e.goals.length ∧ e'.goals = e.goals ++ [extraGoal] ∧ e'.steps = e.steps ∧
      e'.flow.variableFlows = e.flow.variableFlows ∧ e'.Matches k := by
  obtain ⟨_, _, rfl, _, _, rfl⟩ := h
  refine ⟨rfl, rfl, rfl, rfl, ?_⟩
  refine ⟨?_, fun j g hg => ?_, fun j m hne hm => ?_⟩
  · rw [← hk.wiring]
    unfold Flow.wiring
    congr 1
    all_goals
      funext j
      rw [getElem?_concat]
      split
      · next hj => simp [hj]
      · rfl
  · rw [Flow.goal_ok, getElem?_concat] at hg
    split at hg
    · next hj => rw [hj, hlen, hextra, ← Option.some.inj hg]
    · exact hk.defined j g (Flow.goal_ok.2 hg)
  · refine hk.mode j m hne ?_
    have hj : j ≠ e.flow.goals.length := by
      rintro rfl
      rw [← hk.wiring] at hne
      simp [Flow.wiring] at hne
    simpa [Flow.modeOf, Flow.goal, getElem?_concat, hj, hlen ▸ hj] using hm

/-- Every successful emission of a rule is a derivation. -/
theorem emit_ok {head : Goal} {out : String} (hk : e.Matches k) (hgoals : e.goals = head :: body)
    (hlen : e.flow.goals.length = e.goals.length) (hextra : k.defined e.goals.length = false)
    (hsteps : e.steps = []) (hseen : e.Seen []) (h : c.emit e = .ok out e') :
    Emits k body out (e'.steps.map Step.operation) ∧ (∀ s ∈ e'.steps, s.CallsFrom c) ∧
      e'.Matches k := by
  simp only [emit, bind_ok, lift_ok, get_bind] at h
  obtain ⟨g, _, hg, y, _, ⟨hy, rfl⟩, m, e1, hm, extra, e2, hadd, ms, e3, hms, h⟩ := h
  obtain ⟨rfl, hgoal⟩ := goalFlow_ok hg
  obtain ⟨-, hout, -⟩ := hk.goal hgoal
  obtain ⟨steps, ns, hs, hg1, hc⟩ := (goalsSent_and_variablesSent c k _).2 _ _ _ _ _ _ hk hm
  have hk1 := hk.grows hg1
  obtain ⟨hext, hgoals2, hsteps2, hflows2, hk2⟩ := addExtra_ok hk1
    (by rw [hg1.flowGoals, hg1.goals, hlen]) (by rw [hg1.goals, hextra]) hadd
  have hseen2 : e2.Seen (Node.variables (.var y :: ns)) := by
    have := hseen.grows hg1
    simpa [Emission.Seen, hflows2] using this
  have hvars : ∀ v ∈ e2.goals.tail.reverse.flatMap Goal.variableNames,
      ∃ g ∈ body, v ∈ g.variableNames := by
    intro v hv
    obtain ⟨g, hg, hv⟩ := mem_flatMap.1 hv
    rw [hgoals2, hg1.goals, hgoals, mem_reverse] at hg
    rcases mem_append.1 hg with hg | hg
    · exact ⟨g, hg, hv⟩
    · simp [mem_singleton.1 hg, extraGoal, Goal.variableNames] at hv
  obtain ⟨steps', ms', nss, hms', hrest, hg3, hc', hall⟩ :=
    unconnected_sent _ hk2 hseen2 hvars hms
  obtain rfl : ms = ms' := hms'
  obtain ⟨steps'', hw, hg4, hc''⟩ := weigh_ok ms (fun _ => rfl) h
  have hfinal : e'.steps = steps ++ steps' ++ steps'' := by
    rw [hg4.steps, hg3.steps, hsteps2, hg1.steps, hsteps]
    simp
  rw [hext, hg1.goals, hgoals] at hrest
  refine ⟨?_, ?_, (hk2.grows hg3).grows hg4⟩
  · rw [hfinal, map_append, map_append]
    refine .intro (hout ▸ single_ok hy) hs hrest (fun g hg v hv => hall v ?_) hw
    rw [hgoals2, hg1.goals, hgoals]
    simp only [mem_flatMap, mem_reverse]
    exact ⟨g, mem_append_left _ hg, hv⟩
  · rw [hfinal]
    exact forall_mem_append.2 ⟨forall_mem_append.2 ⟨hc, hc'⟩, hc''⟩

end Messaging

end BeliefLogic
