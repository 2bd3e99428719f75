import BeliefLogic.Proofs.Plan.Meaning

/-!
# Weights of rules

The weight of a rule is what its messages carry, whatever the order of its goals.
-/

namespace BeliefLogic

open Assignment Function
open Finset (range sum_congr)
open List hiding range

variable {α : Type} {db : Database α} {n : ℕ} {rules : String → Option (ℕ → ℕ → α)}

namespace Goal

/-- The number that an argument stands for. -/
def number (db : Database α) (σ : Assignment) (a : String) : ℕ :=
  if isVariableName a then σ a else (db.idOf? a).getD 0

def assignsConstant (g : Goal) : Bool :=
  g.isAssignment && !isVariableName (g.args.getD 1 "")

theorem dependsOn_number (db : Database α) (a : String) :
    DependsOn (fun σ => number db σ a) {v | v = a ∧ isVariableName v = true} := by
  intro σ τ h
  unfold number
  split
  · next ha => exact h a ⟨rfl, ha⟩
  · rfl

variable [ExactScalar α]

/-- The weight of a goal under an assignment, defined relations included. -/
def weight (db : Database α) (rules : String → Option (ℕ → ℕ → α)) (σ : Assignment) (g : Goal) :
    α :=
  if g.assignsConstant then
    if db.idOf? (g.args.getD 1 "") = some (number db σ (g.args.getD 0 "")) then 1 else 0
  else match g.args with
    | [u] => db.rowWeight g.functor (number db σ u)
    | [u, v] => ((rules g.functor).getD (db.weight g.functor)) (number db σ u) (number db σ v)
    | _ => 0

/-- An assignment has a variable, a constant, and possibly a type. -/
def WellAssigned (g : Goal) : Prop :=
  g.functor = assignment → (∀ a ∈ g.args, isVariableName a = true) ∨
    ∃ v a rest, g.args = v :: a :: rest ∧ rest.length ≤ 1 ∧ isVariableName v = true ∧
      isVariableName a = false ∧ ∀ t ∈ rest, isVariableName t = false

/-- The weight of a goal depends on its variables. -/
theorem dependsOn_weight (db : Database α) (rules : String → Option (ℕ → ℕ → α)) (g : Goal) :
    DependsOn (fun σ => g.weight db rules σ) {v | v ∈ g.variableNames} := by
  intro σ τ h
  have hnum (a : String) (ha : a ∈ g.args) : number db σ a = number db τ a := by
    refine dependsOn_number db a fun v hv => h v ?_
    obtain ⟨rfl, hv⟩ := hv
    exact mem_filter.2 ⟨ha, hv⟩
  change g.weight db rules σ = g.weight db rules τ
  unfold weight
  split
  · next hassign =>
    rw [hnum (g.args.getD 0 "")]
    have harity : 2 ≤ g.args.length := by
      simp only [assignsConstant, isAssignment, Bool.and_eq_true, decide_eq_true_eq] at hassign
      exact hassign.1.1.2
    rw [getD_eq_getElem _ _ (by omega)]
    exact getElem_mem _
  · split
    · next u hargs => rw [hnum u (by simp [hargs])]
    · next u v hargs => rw [hnum u (by simp [hargs]), hnum v (by simp [hargs])]
    · rfl

def variablesOf (body : List Goal) : List String := (body.flatMap variableNames).dedup

def innerVariables (x y : String) (body : List Goal) : List String :=
  (variablesOf body).filter fun v => v ≠ x ∧ v ≠ y

def bodyWeight (db : Database α) (rules : String → Option (ℕ → ℕ → α)) (body : List Goal)
    (σ : Assignment) : α :=
  (body.map fun g => g.weight db rules σ).prod

/-- The weight of a body that gives two variables their numbers. -/
def weightAt (db : Database α) (n : ℕ) (rules : String → Option (ℕ → ℕ → α)) (x y : String)
    (body : List Goal) (a b : ℕ) : α :=
  total n (innerVariables x y body) (bodyWeight db rules body) (update (update (fun _ => 0) x a) y b)

theorem weightAt_perm {x y : String} {body body' : List Goal} (h : body.Perm body') (a b : ℕ) :
    weightAt db n rules x y body a b = weightAt db n rules x y body' a b := by
  have hvars : (innerVariables x y body).Perm (innerVariables x y body') :=
    ((h.flatMap_right _).dedup).filter _
  unfold weightAt
  rw [total_perm hvars]
  refine total_congr (fun σ => ?_) _
  exact (h.map _).prod_eq

theorem weightAt_swap {x y : String} (hxy : x ≠ y) (body : List Goal) (a b : ℕ) :
    weightAt db n rules x y body a b = weightAt db n rules y x body b a := by
  unfold weightAt innerVariables
  rw [update_comm hxy]
  simp [and_comm]

end Goal

variable [ExactScalar α]

/-- The weight of a rule at the numbers of the arguments of its head. -/
def Rule.weight (db : Database α) (n : ℕ) (rules : String → Option (ℕ → ℕ → α)) (r : Rule)
    (a b : ℕ) : α :=
  match r.head with
  | some ⟨_, [x, y]⟩ => Goal.weightAt db n rules x y r.body a b
  | _ => 0

namespace Circuit

variable {c : Circuit} {x y : String} {body : List Goal}

/-- The weight with which a mode of a defined relation carries numbers. -/
def carriedBy (rules : String → Option (ℕ → ℕ → α)) (mode : Mode) (i k : ℕ) : α :=
  match rules mode.functor with
  | some r => if Database.isForward mode then r i k else r k i
  | none => 0

/-- The weights of the head and the goals of a body. -/
def goalWeight (db : Database α) (rules : String → Option (ℕ → ℕ → α)) (x : String)
    (body : List Goal) (vec : String → ℕ → α) : ℕ → Assignment → α
  | 0, σ => vec x (σ x)
  | j + 1, σ => (body[j]?).elim 1 fun g => g.weight db rules σ

/-- What the arguments of a goal of two variables say about its mode. -/
theorem Describes.mode_of_args (hc : c.Describes x y body) {j : ℕ} {mode : Mode} {u v : String}
    (hm : c.mode? (j + 1) = some mode) (ha : mode.arity = 2) (hu : u ∈ c.inputs (j + 1))
    (hu' : u ∉ c.outputs (j + 1)) (hv : v ∈ c.outputs (j + 1)) :
    ∃ g, body[j]? = some g ∧ mode.functor = g.functor ∧ isVariableName u = true ∧
      isVariableName v = true ∧
      ((g.args = [u, v] ∧ Database.isForward mode = true) ∨
        (g.args = [v, u] ∧ Database.isForward mode = false)) := by
  have hne : u ≠ v := fun heq => hu' (heq ▸ hv)
  obtain ⟨g, hg, hf, hargs, hmode, hsep⟩ := hc.args_of_arity_two hm ha (.inl hu) (.inr hv) hne
  have hv' : v ∉ c.inputs (j + 1) := fun hmem => hsep v hmem hv
  refine ⟨g, hg, hf, (hc.mem_args hg (.inl hu)).2, (hc.mem_args hg (.inr hv)).2, ?_⟩
  rcases hargs with hargs | hargs
  · refine .inl ⟨hargs, ?_⟩
    simp [Database.isForward, Mode.isInput, Mode.isOutput, hmode, hargs, direction, hu, hv, hv']
  · refine .inr ⟨hargs, ?_⟩
    simp [Database.isForward, Mode.isOutput, hmode, hargs, direction, hu]

/-- The arguments of a goal that assigns a constant. -/
theorem Describes.assigned_args (hc : c.Describes x y body) (hassign : ∀ g ∈ body, g.WellAssigned)
    {j : ℕ} {mode : Mode} (hm : c.mode? (j + 1) = some mode) (hf : mode.functor = assignment)
    (hconst : mode.isConst 1 = true) :
    ∃ g, body[j]? = some g ∧ g.functor = assignment ∧
      mode.args = g.args.map (c.direction (j + 1)) ∧ (g.args.length ≤ 1 ∨
      ∃ v a rest, g.args = v :: a :: rest ∧ rest.length ≤ 1 ∧ isVariableName v = true ∧
        isVariableName a = false ∧ ∀ t ∈ rest, isVariableName t = false) := by
  obtain ⟨g, hg, hgf, hargs, -⟩ := hc.mode j mode hm
  refine ⟨g, hg, hgf ▸ hf, hargs, ?_⟩
  rcases hassign g (mem_of_getElem? hg) (hgf ▸ hf) with hall | hform
  · refine .inl (not_lt.1 fun hlen => ?_)
    -- The second argument would be a variable, which a mode shows as given or computed.
    have hstands := (hc.covers.mem_iff j g.args[1]).2
      ⟨g, hg, mem_filter.2 ⟨getElem_mem hlen, hall _ (getElem_mem hlen)⟩⟩
    have hsecond : mode.args[1]? = some (c.direction (j + 1) g.args[1]) := by
      simp [hargs, getElem?_eq_getElem hlen]
    by_cases hin : g.args[1] ∈ c.inputs (j + 1)
    · simp [Mode.isConst, Mode.isInput, hsecond, direction, hin] at hconst
    · simp [Mode.isConst, Mode.isOutput, hsecond, direction, hin, hstands.resolve_left hin] at hconst
  · exact .inr hform

theorem Describes.assigns (hc : c.Describes x y body) (hassign : ∀ g ∈ body, g.WellAssigned) :
    c.Assigns := by
  intro j mode hm hf hconst u hu v hv
  obtain ⟨g, hg, -, -, hform⟩ := hc.assigned_args hassign hm hf hconst
  obtain ⟨hu, hnu⟩ := hc.mem_args hg (.inr hu)
  obtain ⟨hv, hnv⟩ := hc.mem_args hg (.inr hv)
  rcases hform with hlen | ⟨w, a, rest, hargs, -, -, ha, hrest⟩
  · obtain ⟨w, hw⟩ := length_eq_one_iff.1
      (le_antisymm hlen (length_pos_of_mem hu))
    rw [hw, mem_singleton] at hu hv
    rw [hu, hv]
  · have heq (u : String) (hu : u ∈ g.args) (hnu : isVariableName u = true) : u = w := by
      rw [hargs, mem_cons, mem_cons] at hu
      rcases hu with rfl | rfl | hu
      · rfl
      · rw [ha] at hnu
        cases hnu
      · rw [hrest u hu] at hnu
        cases hnu
    rw [heq u hu hnu, heq v hv hnv]

/-- The goals of a body have their weights as goals of its circuit. -/
theorem Describes.means (hc : c.Describes x y body) (db : Database α)
    (rules : String → Option (ℕ → ℕ → α)) (vec : String → ℕ → α)
    (hassign : ∀ g ∈ body, g.WellAssigned)
    (hdef : ∀ j g, body[j]? = some g → g.arity = 2 →
      c.defined (j + 1) = (rules g.functor).isSome) :
    c.Means db (carriedBy rules) vec (goalWeight db rules x body vec) where
  depends g := by
    cases g with
    | zero =>
      intro σ τ h
      exact congrArg (vec x) (h x (by simp [Stands, hc.inputs_head]))
    | succ j =>
      intro σ τ h
      cases hj : body[j]? with
      | none => simp [goalWeight, hj]
      | some g =>
        simp only [goalWeight, hj, Option.elim_some]
        exact g.dependsOn_weight db rules fun v hv => h v ((hc.covers.mem_iff j v).2 ⟨g, hj, hv⟩)
  head v hv σ := by
    rw [hc.inputs_head, mem_singleton] at hv
    rw [hv, goalWeight]
  assigned {j v mode} hv hin hm hf ha hconst σ := by
    obtain ⟨g, hg, hgf, hargs, hform⟩ := hc.assigned_args hassign hm hf hconst
    have hlen : mode.args.length = g.args.length := by simp [hargs]
    have ha : 2 ≤ g.args.length := hlen ▸ ha
    obtain ⟨w, a, rest, hform, hrest, hw, hna, -⟩ := hform.resolve_left (by omega)
    have hw' : c.Stands w (j + 1) := (hc.covers.mem_iff j w).2
      ⟨g, hg, mem_filter.2 ⟨by simp [hform], hw⟩⟩
    obtain rfl : v = w := by
      refine hc.assigns hassign j mode hm hf hconst v hv w ?_
      simpa [Stands, hin] using hw'
    have hna' : c.direction (j + 1) a = a := by
      have hout : ¬(a ∈ c.inputs (j + 1) ∨ a ∈ c.outputs (j + 1)) := fun h => by
        rw [(hc.mem_args hg h).2] at hna
        cases hna
      simp [direction, not_or.1 hout]
    have hgarity : rest.length + 1 + 1 ≤ 3 := by omega
    simp [goalWeight, hg, Goal.weight, Goal.assignsConstant, Goal.isAssignment, Goal.arity, hform,
      hgf, hna, hgarity, hargs, hna', Goal.number, hw]
  row {j v mode} hv hout hm ha σ := by
    obtain ⟨g, a, hg, hgf, ha, hvar⟩ := hc.arg_of_arity_one hm ha
    obtain ⟨rfl, hname⟩ := hvar v (.inl hv)
    simp [goalWeight, hg, Goal.weight, Goal.assignsConstant, Goal.isAssignment, Goal.arity, ha, hgf,
      Goal.number, hname]
  stored {j u v mode} hu hu' hv hm ha hd σ := by
    obtain ⟨g, hg, hf, hnu, hnv, hargs⟩ := hc.mode_of_args hm ha hu hu' hv
    have hrules : rules g.functor = none := by
      have hlen : g.arity = 2 := by rcases hargs with h | h <;> simp [Goal.arity, h.1]
      simpa [hdef j g hg hlen] using hd
    rcases hargs with ⟨hargs, hfor⟩ | ⟨hargs, hfor⟩ <;>
      simp [goalWeight, hg, Goal.weight, Goal.assignsConstant, hargs, hnu, hnv, hrules, Goal.number,
        Database.carried, hfor, hf]
  defined {j u v mode} hu hu' hv hm ha hd σ := by
    obtain ⟨g, hg, hf, hnu, hnv, hargs⟩ := hc.mode_of_args hm ha hu hu' hv
    obtain ⟨r, hrules⟩ : ∃ r, rules g.functor = some r := by
      have hlen : g.arity = 2 := by rcases hargs with h | h <;> simp [Goal.arity, h.1]
      rw [← Option.isSome_iff_exists, ← hdef j g hg hlen, hd]
    rcases hargs with ⟨hargs, hfor⟩ | ⟨hargs, hfor⟩ <;>
      simp [goalWeight, hg, Goal.weight, Goal.assignsConstant, hargs, hnu, hnv, hrules, Goal.number,
        carriedBy, hfor, hf]

theorem prod_goalWeight (db : Database α) (rules : String → Option (ℕ → ℕ → α)) (x : String)
    (body : List Goal) (vec : String → ℕ → α) (σ : Assignment) :
    (((List.range body.length).map (· + 1)).map fun g => goalWeight db rules x body vec g σ).prod =
      Goal.bodyWeight db rules body σ := by
  congr 1
  refine ext_getElem (by simp) fun j hj hj' => ?_
  have hj : j < body.length := by simpa using hj
  simp [goalWeight, getElem?_eq_getElem hj]

namespace Region

variable {ns : List Node} (hc : c.Describes x y body) (h : c.Region (.var y :: ns))
  (hall : ∀ g ∈ body, ∀ v ∈ g.variableNames, .var v ∈ .var y :: ns)

include hc h hall

/-- The variables of a region that holds all variables of a body. -/
theorem mem_var_iff {v : String} : .var v ∈ .var y :: ns ↔ v ∈ Goal.variablesOf body := by
  rw [Goal.variablesOf, mem_dedup, mem_flatMap]
  constructor
  · intro hv
    obtain ⟨j, hj⟩ := h.var v hv
    obtain ⟨g, hg, hv⟩ := (hc.covers.mem_iff j v).1 hj
    exact ⟨g, mem_of_getElem? hg, hv⟩
  · rintro ⟨g, hg, hv⟩
    exact hall g hg v hv

/-- The goals of a region that holds all variables of a body. -/
theorem mem_goal_iff (hvars : ∀ g ∈ body, g.variableNames ≠ []) {g : ℕ} :
    .goal g ∈ ns ↔ (g = 0 ∧ x ∈ Goal.variablesOf body) ∨ ∃ j < body.length, g = j + 1 := by
  have hmem : .goal g ∈ ns ↔ .goal g ∈ .var y :: ns := by simp
  rw [hmem]
  cases g with
  | zero =>
    rw [← h.sealed x 0 (by simp [Stands, hc.inputs_head]), h.mem_var_iff hc hall]
    simp
  | succ j =>
    simp only [Nat.succ_ne_zero, false_and, false_or, Nat.add_right_cancel_iff, exists_eq_right']
    constructor
    · intro hg
      obtain ⟨u, hu⟩ := h.goal _ hg
      obtain ⟨g, hg, -⟩ := (hc.covers.mem_iff j u).1 hu
      exact (List.getElem?_eq_some_iff.1 hg).1
    · intro hj
      obtain ⟨u, hu⟩ := exists_mem_of_ne_nil _ (hvars _ (getElem_mem hj))
      have hstands := (hc.covers.mem_iff j u).2 ⟨_, getElem?_eq_getElem hj, hu⟩
      exact (h.sealed u (j + 1) hstands).1 (hall _ (getElem_mem hj) u hu)

/-- Each goal of the body is visited once, and the head with its input. -/
theorem goals_perm (hvars : ∀ g ∈ body, g.variableNames ≠ []) :
    (Node.goals ns).Perm ((if x ∈ Goal.variablesOf body then [0] else []) ++
      (List.range body.length).map (· + 1)) := by
  have hnd : (Node.goals ns).Nodup :=
    (nodup_cons.1 h.nodup).2.filterMap fun z z' g hz hz' => by
      cases z <;> cases z' <;> simp_all
  have hnd' : ((if x ∈ Goal.variablesOf body then [0] else []) ++
      (List.range body.length).map (· + 1)).Nodup := by
    refine List.Nodup.append (by split <;> simp) ?_ ?_
    · exact nodup_range.map (add_left_injective 1)
    · split <;> simp
  refine (perm_ext_iff_of_nodup hnd hnd').2 fun g => ?_
  rw [Node.mem_goals, h.mem_goal_iff hc hall hvars]
  by_cases hx : x ∈ Goal.variablesOf body <;> simp [hx, eq_comm]

/-- Each variable of the body other than the output is visited once. -/
theorem variables_perm :
    (Node.variables ns).Perm ((if x ∈ Goal.variablesOf body then [x] else []) ++
      Goal.innerVariables x y body) := by
  obtain ⟨hy, hns⟩ := nodup_cons.1 h.nodup
  have hnd : (Node.variables ns).Nodup := hns.filterMap fun z z' v hz hz' => by
    cases z <;> cases z' <;> simp_all
  have hnd' : ((if x ∈ Goal.variablesOf body then [x] else []) ++
      Goal.innerVariables x y body).Nodup := by
    refine List.Nodup.append (by split <;> simp) ((nodup_dedup _).filter _) ?_
    split <;> simp [Goal.innerVariables]
  refine (perm_ext_iff_of_nodup hnd hnd').2 fun v => ?_
  have hv : .var v ∈ .var y :: ns ↔ _ := h.mem_var_iff hc hall
  have hxy := hc.ne
  rw [Goal.innerVariables]
  by_cases hx : x ∈ Goal.variablesOf body <;> by_cases hvy : v = y <;> by_cases hvx : v = x <;>
    simp_all

end Region

end Circuit

/-- What the messages of a rule carry from its input to its output. -/
theorem Emits.weight {c : Circuit} {x y : String} {body : List Goal} {vec : String → ℕ → α}
    {out : String} {ops : List Operation} (hc : c.Describes x y body)
    (hassign : ∀ g ∈ body, g.WellAssigned) (hvars : ∀ g ∈ body, g.variableNames ≠ [])
    (hdef : ∀ j g, body[j]? = some g → g.arity = 2 → c.defined (j + 1) = (rules g.functor).isSome)
    (h : Emits c body out ops) (hplain : ∀ o ∈ ops, o.Plain)
    (hnd : (ops.map Operation.target).Nodup)
    (hops : ∀ o ∈ ops, o.Holds db n (Circuit.carriedBy rules) vec) (hstored : Sends.Stored c ops)
    {k : ℕ} (hk : k < n) :
    (x ∈ Goal.variablesOf body →
      vec out k = ∑ a ∈ range n, vec x a * Goal.weightAt db n rules x y body a k) ∧
    (x ∉ Goal.variablesOf body → ∀ a, vec out k = Goal.weightAt db n rules x y body a k) := by
  have hw := hc.means db rules vec hassign hdef
  obtain ⟨ns, hregion, hall, hvalue⟩ :=
    h.value hc (hc.assigns hassign) hw hplain hnd hops hstored
  have hgoals := hregion.goals_perm hc hall hvars
  have hvariables := hregion.variables_perm hc hall
  have hprod := Circuit.prod_goalWeight db rules x body vec
  refine ⟨fun hx => ?_, fun hx a => ?_⟩
  · rw [if_pos hx] at hgoals hvariables
    have hweight (σ : Assignment) : Node.weight (Circuit.goalWeight db rules x body vec) ns σ =
        vec x (σ x) * Goal.bodyWeight db rules body σ := by
      rw [Node.weight, (hgoals.map _).prod_eq, singleton_append, map_cons,
        prod_cons, hprod]
      rfl
    rw [hvalue k hk (fun _ => 0), total_perm hvariables, singleton_append, total_cons]
    refine sum_congr rfl fun a _ => ?_
    have hdep : DependsOn (fun σ : Assignment => vec x (σ x)) {x} := fun σ τ hστ =>
      congrArg (vec x) (hστ x rfl)
    have hinner (v : String) (hv : v ∈ Goal.innerVariables x y body) : v ∉ ({x} : Set String) :=
      (of_decide_eq_true (mem_filter.1 hv).2).1
    rw [total_congr hweight, total_mul_left hdep hinner, update_self, update_comm hc.ne.symm]
    rfl
  · rw [if_neg hx] at hgoals hvariables
    have hweight (σ : Assignment) : Node.weight (Circuit.goalWeight db rules x body vec) ns σ =
        Goal.bodyWeight db rules body σ := by
      rw [Node.weight, (hgoals.map _).prod_eq, nil_append, hprod]
    rw [hvalue k hk (update (fun _ => 0) x a), total_perm hvariables, total_congr hweight]
    rfl

end BeliefLogic
