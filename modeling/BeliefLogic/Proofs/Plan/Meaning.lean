import BeliefLogic.Proofs.Plan.Vectors
import BeliefLogic.Proofs.Plan.Visits
import BeliefLogic.Proofs.Rule.Assignments

/-!
# What messages mean

A message is the sum, over the assignments to the variables visited, of the products of the weights
of the goals visited.
-/

namespace BeliefLogic

open List hiding range mem_range

variable {v p out : String} {ops : List Operation}

variable {α : Type} [ExactScalar α] {k n : ℕ} {called : Mode → ℕ → ℕ → α} {db : Database α}
  {w : ℕ → Assignment → α} {vec : String → ℕ → α} {ns' : List Node}

/-- Vectors agree with an operation. A call carries given weights. -/
def Operation.Holds (db : Database α) (n : ℕ) (called : Mode → ℕ → ℕ → α) (vec : String → ℕ → α) :
    Operation → Prop
  | .act t a => ∀ k < n, vec t k = a.compute db n vec k
  | .call t x mode => ∀ k < n, vec t k = ∑ i ∈ Finset.range n, vec x i * called mode i k

/-- The weights of goals under an assignment. The head weighs its input. -/
structure Circuit.Means (c : Circuit) (db : Database α) (called : Mode → ℕ → ℕ → α)
    (vec : String → ℕ → α) (w : ℕ → Assignment → α) : Prop where
  depends : ∀ g, DependsOn (w g) {u | c.Stands u g}
  head : ∀ v ∈ c.inputs 0, ∀ σ, w 0 σ = vec v (σ v)
  assigned : ∀ {j v mode}, v ∈ c.outputs (j + 1) → c.inputs (j + 1) = [] →
    c.mode? (j + 1) = some mode → mode.functor = assignment → 2 ≤ mode.arity →
    mode.isConst 1 = true → ∀ σ, w (j + 1) σ =
      if db.idOf? (mode.args.getD 1 "") = some (σ v) then 1 else 0
  row : ∀ {j v mode}, v ∈ c.inputs (j + 1) → c.outputs (j + 1) = [] →
    c.mode? (j + 1) = some mode → mode.arity = 1 →
    ∀ σ, w (j + 1) σ = db.rowWeight mode.functor (σ v)
  stored : ∀ {j u v mode}, u ∈ c.inputs (j + 1) → u ∉ c.outputs (j + 1) → v ∈ c.outputs (j + 1) →
    c.mode? (j + 1) = some mode → mode.arity = 2 → c.defined (j + 1) = false →
    ∀ σ, w (j + 1) σ = db.carried mode false (σ u) (σ v)
  defined : ∀ {j u v mode}, u ∈ c.inputs (j + 1) → u ∉ c.outputs (j + 1) → v ∈ c.outputs (j + 1) →
    c.mode? (j + 1) = some mode → mode.arity = 2 → c.defined (j + 1) = true →
    ∀ σ, w (j + 1) σ = called mode (σ u) (σ v)

/-- The product of the weights of the goals among nodes. -/
def Node.weight (w : ℕ → Assignment → α) (ns : List Node) (σ : Assignment) : α :=
  ((Node.goals ns).map fun g => w g σ).prod

namespace Node

variable {ns : List Node}

@[simp] theorem mem_goals {j : ℕ} : j ∈ Node.goals ns ↔ .goal j ∈ ns := by
  induction ns with
  | nil => simp [goals]
  | cons z ns ih =>
    cases z with
    | var v => simpa [goals] using ih
    | goal i => simpa [goals] using or_congr_right ih

variable (w)

@[simp] theorem weight_nil (σ : Assignment) : weight w [] σ = 1 := rfl

@[simp] theorem weight_goal (j : ℕ) (ns : List Node) (σ : Assignment) :
    weight w (.goal j :: ns) σ = w j σ * weight w ns σ := by
  simp [weight, goals]

@[simp] theorem weight_var (v : String) (ns : List Node) (σ : Assignment) :
    weight w (.var v :: ns) σ = weight w ns σ := rfl

@[simp] theorem weight_append (ns ns' : List Node) (σ : Assignment) :
    weight w (ns ++ ns') σ = weight w ns σ * weight w ns' σ := by
  simp [weight, goals]

theorem dependsOn_weight {w : ℕ → Assignment → α} {c : Circuit} {s : Set String}
    (hw : ∀ g, DependsOn (w g) {u | c.Stands u g}) (hs : ∀ u g, .goal g ∈ ns → c.Stands u g → u ∈ s)
    : DependsOn (weight w ns) s := by
  intro σ τ hστ
  unfold weight
  congr 1
  refine map_congr_left fun g hg => hw g fun u hu => hστ u (hs u g (mem_goals.1 hg) hu)

/-- Sums over nodes with nothing to sum over in common multiply. -/
theorem total_append {w : ℕ → Assignment → α} {c : Circuit} {s t : Set String}
    (hw : ∀ g, DependsOn (w g) {u | c.Stands u g}) (hs : ∀ u g, .goal g ∈ ns → c.Stands u g → u ∈ s)
    (ht : ∀ u g, .goal g ∈ ns' → c.Stands u g → u ∈ t) (hns' : ∀ u, .var u ∈ ns' → u ∉ s)
    (hns : ∀ u, .var u ∈ ns → u ∉ t) (σ : Assignment) :
    Assignment.total n (Node.variables (ns ++ ns')) (weight w (ns ++ ns')) σ =
      Assignment.total n (Node.variables ns) (weight w ns) σ *
        Assignment.total n (Node.variables ns') (weight w ns') σ := by
  rw [variables_append, Assignment.total_congr (fun τ => weight_append w ns ns' τ)]
  exact Assignment.total_mul (dependsOn_weight hw hs) (dependsOn_weight hw ht)
    (fun u hu => hns' u (mem_variables.1 hu)) (fun u hu => hns u (mem_variables.1 hu)) σ

end Node

theorem Database.carried_true (db : Database α) (mode : Mode) (i k : ℕ) :
    db.carried mode true i k = db.carried mode false k i := by
  cases h : isForward mode <;> simp [carried, h]

namespace Sends

variable {c : Circuit} {x y : String} {body : List Goal} {q : Request} {m : String}
  {ns : List Node}

open Assignment Function
open Finset (range mem_range sum_congr)

/-- The weights of the goals visited, over the variables visited. -/
def Sum (n : ℕ) (w : ℕ → Assignment → α) (ns : List Node) (v : String) (k : ℕ) (σ : Assignment) :
    α :=
  total n (Node.variables ns) (Node.weight w ns) (update σ v k)

/-- The sum behind a goal that asks another variable. -/
theorem sum_step {g : ℕ} {u : String} {r : ℕ → ℕ → α} {f : ℕ → α}
    (hdep : DependsOn (w g) {u | c.Stands u g}) (hw : ∀ σ, w g σ = r (σ u) (σ v)) (hne : u ≠ v)
    (hns : ∀ a, .var a ∈ ns → ¬c.Stands a g) (hf : ∀ l < n, ∀ σ, f l = Sum n w ns u l σ)
    (σ : Assignment) :
    ∑ l ∈ range n, f l * r l k = Sum n w (.goal g :: .var u :: ns) v k σ := by
  simp only [Sum, Node.variables_goal, Node.variables_var, total_cons]
  refine sum_congr rfl fun l hl => ?_
  rw [hf l (mem_range.1 hl) (update σ v k), mul_comm,
    total_congr (fun τ => Node.weight_goal w g _ τ),
    total_mul_left hdep (fun a ha => hns a (Node.mem_variables.1 ha))]
  congr 1
  rw [hw]
  simp [hne.symm]

/-- The sums behind goals that a variable asks multiply. -/
theorem sum_append {g : ℕ} {gs : List ℕ} {m' : String}
    {ops' : List Operation} (hc : c.Describes x y body) (hone : c.Assigns)
    (hw : ∀ g, DependsOn (w g) {u | c.Stands u g}) (hs : Passes c (.goal g v) m ops ns)
    (hs' : Passes c (.times v j p gs) m' ops' ns') (hgs : gs.Nodup) (hdisj : ns.Disjoint ns')
    (σ : Assignment) : Sum n w (ns ++ ns') v k σ = Sum n w ns v k σ * Sum n w ns' v k σ := by
  refine Node.total_append hw (hs.bounded hc hone) (hs'.bounded hc hone) ?_ ?_ _
  · rintro u hu (hmem | rfl)
    · exact hdisj hmem hu
    · exact hs'.name_notMem hc hgs hu
  · rintro u hu (hmem | rfl)
    · exact hdisj hu hmem
    · exact hs.name_notMem hc trivial hu

/-- What there is before the goals of a request are asked. -/
def before (vec : String → ℕ → α) (k : ℕ) : Request → α
  | .times _ _ p _ => vec p k
  | .goal _ _ => 1
  | .var _ _ => 1

/-- No message goes backward through a goal that rules define. -/
def Stored (c : Circuit) (ops : List Operation) : Prop :=
  ∀ t s mode, .act t (.product s mode true) ∈ ops → ∀ j, c.mode? (j + 1) = some mode →
    c.defined (j + 1) = false

theorem Stored.mono {ops ops' : List Operation} (h : Stored c ops') (hsub : ops ⊆ ops') :
    Stored c ops := fun t s mode hmem => h t s mode (hsub hmem)

/-- A message sums the weights of the goals it visits over the variables it visits. -/
theorem value (hc : c.Describes x y body) (hone : c.Assigns)
    (hw : c.Means db called vec w) (h : Passes c q m ops ns) (hq : Distinct q)
    (hops : ∀ o ∈ ops, o.Holds db n called vec) (hstored : Stored c ops) (hk : k < n)
    (σ : Assignment) : vec m k = before vec k q * Sum n w ns q.name k σ := by
  have hall := h
  induction h generalizing k σ with
  | outside hno => exact absurd trivial hno
  | @head v hv => simp [before, Sum, Request.name, Node.variables, hw.head v hv]
  | assigned hv hin hm hf ha _ hconst =>
    have := hops _ (mem_singleton_self _) k hk
    simp [before, Sum, Request.name, Node.variables, hw.assigned hv hin hm hf ha hconst, this,
      Action.compute]
  | row hv hout hm ha =>
    have := hops _ (mem_singleton_self _) k hk
    simp [before, Sum, Request.name, Node.variables, hw.row hv hout hm (ha trivial), this, Action.compute]
  | @forward j v u mode m ops ns hv hin hu hm hd ha hs ih
  | @call j v u mode m ops ns hv hin hu hm hd ha hs ih =>
    simp only [mem_append, mem_singleton, or_imp, forall_and, forall_eq] at hops
    have hu' : u ∈ c.inputs (j + 1) := by simp [hin]
    have hu := hu trivial
    have hne : u ≠ v := fun heq => hu (heq ▸ hv)
    have hns := hs.apart hc (fun hmem => hall.name_notMem hc hq (by simp [Request.name, hmem]))
      fun a => hc.eq_or_eq_of_stands hm (ha trivial) (.inl hu') (.inr hv) hne
    have hvec (l : ℕ) (hl : l < n) (σ : Assignment) : vec m l = Sum n w ns u l σ := by
      rw [ih trivial hops.1 (hstored.mono (subset_append_left _ _)) hl σ hs, before, one_mul,
        Request.name]
    rw [hops.2 k hk, before, one_mul]
    first
    | exact sum_step (hw.depends _) (hw.stored hu' hu hv hm (ha trivial) hd) hne hns hvec σ
    | exact sum_step (hw.depends _) (hw.defined hu' hu hv hm (ha trivial) hd) hne hns hvec σ
  | @preimage j v u mode hv hv' hout huses hm hd ha =>
    have hu : u ∈ c.outputs (j + 1) := by simp [hout]
    have hne : u ≠ v := fun heq => hv' (heq ▸ hu)
    have hweight (σ : Assignment) : w (j + 1) σ = db.carried mode true (σ u) (σ v) := by
      rw [hw.stored hv hv' hu hm (ha trivial) hd, Database.carried_true]
    rw [hops _ (mem_singleton_self _) k hk, before, Request.name,
      ← sum_step (f := 1) (hw.depends _) hweight hne (by simp) (by simp [Sum])]
    simp [Action.compute]
  | @backward j v u mode m ops ns hv hv' hout huses hm ha hs ih =>
    have hd := hstored _ _ _ (mem_append_right _ (mem_singleton_self _)) j hm
    simp only [mem_append, mem_singleton, or_imp, forall_and, forall_eq] at hops
    have hu : u ∈ c.outputs (j + 1) := by simp [hout]
    have hne : u ≠ v := fun heq => hv' (heq ▸ hu)
    have hns := hs.apart hc (fun hmem => hall.name_notMem hc hq (by simp [Request.name, hmem]))
      fun a => hc.eq_or_eq_of_stands hm (ha trivial) (.inr hu) (.inl hv) hne
    have hweight (σ : Assignment) : w (j + 1) σ = db.carried mode true (σ u) (σ v) := by
      rw [hw.stored hv hv' hu hm (ha trivial) hd, Database.carried_true]
    rw [hops.2 k hk, before, one_mul]
    refine sum_step (hw.depends _) hweight hne hns (fun l hl σ => ?_) σ
    rw [ih trivial hops.1 (hstored.mono (subset_append_left _ _)) hl σ hs, before, one_mul,
      Request.name]
  | ask hnb hnd hs hs' ih ih' =>
    have hgs := (nodup_cons.1 (hnd trivial)).2
    rw [ih' hgs (fun o ho => hops o (mem_append_right _ ho))
        (hstored.mono (subset_append_right _ _)) hk σ hs', before,
      ih trivial (fun o ho => hops o (mem_append_left _ ho))
        (hstored.mono (subset_append_left _ _)) hk σ hs, before, before, one_mul, one_mul]
    exact (sum_append hc hone hw.depends hs hs' hgs
      (nodup_append'.1 (hall.located hc trivial).1).2.2 σ).symm
  | done => simp [before, Sum]
  | factor hs hs' ih ih' =>
    have hgs := (nodup_cons.1 hq).2
    have hmul := hops _ (mem_append_right _ mem_cons_self) k hk
    rw [ih' hgs (fun o ho => hops o (mem_append_right _ (mem_cons_of_mem _ ho)))
        (hstored.mono fun o ho => mem_append_right _ (mem_cons_of_mem _ ho)) hk σ hs',
      before, hmul, Action.compute,
      ih trivial (fun o ho => hops o (mem_append_left _ ho))
        (hstored.mono (subset_append_left _ _)) hk σ hs, before, before, one_mul, mul_assoc]
    congr 1
    exact (sum_append hc hone hw.depends hs hs' hgs
      (nodup_append'.1 (hall.located hc hq).1).2.2 σ).symm

end Sends
theorem Circuit.Region.total_append {c : Circuit} {ns : List Node}
    (hw : ∀ g, DependsOn (w g) {u | c.Stands u g}) (h : c.Region ns) (h' : c.Region ns')
    (hdisj : ns.Disjoint ns') (σ : Assignment) :
    Assignment.total n (Node.variables (ns ++ ns')) (Node.weight w (ns ++ ns')) σ =
      Assignment.total n (Node.variables ns) (Node.weight w ns) σ *
        Assignment.total n (Node.variables ns') (Node.weight w ns') σ :=
  Node.total_append hw (fun u g hg hu => (h.sealed u g hu).2 hg)
    (fun u g hg hu => (h'.sealed u g hu).2 hg) (fun _ hu hu' => hdisj hu' hu)
    (fun _ hu hu' => hdisj hu hu') σ

/-- The messages left out visit a new region; their sums multiply to its sum. -/
theorem SendsRest.value {c : Circuit} {x y : String} {body : List Goal}
    {extra : ℕ} {seen ms : List String} {nss : List (List Node)}
    (hc : c.Describes x y body) (hone : c.Assigns) (hw : c.Means db called vec w)
    (hextra : ∀ v, ¬c.Stands v extra) (h : SendsRest c body extra seen ms ops nss)
    (hplain : ∀ o ∈ ops, o.Plain) (hnd : (ops.map Operation.target).Nodup)
    (hops : ∀ o ∈ ops, o.Holds db n called vec) (hstored : Sends.Stored c ops) {L : List Node}
    (hL : c.Region L) (hseen : Node.variables L = seen) :
    c.Region nss.flatten ∧ L.Disjoint nss.flatten ∧
      ∀ σ, (ms.map fun m => ∑ l ∈ Finset.range n, vec m l).prod =
        Assignment.total n (Node.variables nss.flatten) (Node.weight w nss.flatten) σ := by
  induction h generalizing L with
  | done => exact ⟨.nil, by simp, by simp⟩
  | @more _ v m _ ns _ _ _ hbody _ hs hrest ih =>
    rw [map_append] at hnd
    obtain ⟨hnd1, hnd2, -⟩ := nodup_append'.1 hnd
    simp only [mem_append, or_imp, forall_and] at hplain hops
    have hpass := hs.passes hc hplain.1 hnd1 trivial
    have hvL : .var v ∉ L := by rwa [← Node.mem_variables, hseen]
    have hregion := hpass.region hc hone (hextra v) (hc.exists_stands hbody)
    have hdisj := hpass.disjoint hL.sealed hvL
    obtain ⟨hrest, hdisj', hvalue⟩ := ih hplain.2 hnd2 hops.2
      (hstored.mono (subset_append_right _ _)) (hL.append hregion hdisj)
      (by rw [Node.variables_append, hseen])
    rw [disjoint_append_left] at hdisj'
    have hfirst (σ : Assignment) : ∑ l ∈ Finset.range n, vec m l =
        Assignment.total n (Node.variables (.var v :: ns)) (Node.weight w (.var v :: ns)) σ := by
      rw [Node.variables_var, Assignment.total_cons]
      refine Finset.sum_congr rfl fun l hl => ?_
      rw [hpass.value hc hone hw trivial hops.1 (hstored.mono (subset_append_left _ _))
        (Finset.mem_range.1 hl) σ, Sends.before, one_mul]
      rfl
    refine ⟨hregion.append hrest hdisj'.2, ?_, fun σ => ?_⟩
    · rw [flatten_cons, disjoint_append_right]
      exact ⟨hdisj, hdisj'.1⟩
    · rw [map_cons, prod_cons, hvalue σ, hfirst σ]
      exact (hregion.total_append hw.depends hrest hdisj'.2 σ).symm

theorem Weighs.value {ms : List String} (h : Weighs y ms p out ops)
    (hops : ∀ o ∈ ops, o.Holds db n called vec) (hk : k < n) :
    vec out k = vec p k * (ms.map fun m => ∑ l ∈ Finset.range n, vec m l).prod := by
  induction h with
  | done => simp
  | more _ ih =>
    obtain ⟨hfirst, hrest⟩ := forall_mem_cons.1 hops
    rw [ih hrest, hfirst k hk, Action.compute, map_cons, prod_cons, mul_assoc]

/-- A rule sums the weights of its goals over its variables. -/
theorem Emits.value {c : Circuit} {x y : String} {body : List Goal}
    (hc : c.Describes x y body) (hone : c.Assigns)
    (hw : c.Means db called vec w) (h : Emits c body out ops) (hplain : ∀ o ∈ ops, o.Plain)
    (hnd : (ops.map Operation.target).Nodup) (hops : ∀ o ∈ ops, o.Holds db n called vec)
    (hstored : Sends.Stored c ops) :
    ∃ ns, c.Region (.var y :: ns) ∧
      (∀ g ∈ body, ∀ v ∈ g.variableNames, .var v ∈ .var y :: ns) ∧
      ∀ k < n, ∀ σ, vec out k = Assignment.total n (Node.variables ns) (Node.weight w ns)
        (Function.update σ y k) := by
  obtain ⟨hy, hs, hrest, hcover, hweigh⟩ := h
  rename_i y' m ns ops ms nss ops' ops''
  obtain rfl : y = y' := by simpa [hc.outputs_head] using hy
  rw [map_append, map_append] at hnd
  obtain ⟨hnd, -, -⟩ := nodup_append'.1 hnd
  obtain ⟨hnd1, hnd2, -⟩ := nodup_append'.1 hnd
  simp only [mem_append, or_imp, forall_and] at hplain hops
  have hpass := hs.passes hc hplain.1.1 hnd1 trivial
  have hregion := hpass.region hc hone hc.not_stands_head (hc.exists_stands_output hpass.exists_stands)
  obtain ⟨hrest, hdisj, hvalue⟩ := hrest.value hc hone hw hc.not_stands_extra hplain.1.2 hnd2
    hops.1.2 (hstored.mono fun o ho => by simp [ho]) hregion rfl
  refine ⟨ns ++ nss.flatten, hregion.append hrest hdisj, fun g hg v hv => ?_, fun k hk σ => ?_⟩
  · have := hcover g hg v hv
    simp only [mem_append, mem_flatMap, Node.mem_variables] at this
    rcases this with hmem | ⟨l, hl, hmem⟩
    · exact mem_append_left nss.flatten hmem
    · exact mem_append_right (.var y :: ns) (mem_flatten.2 ⟨l, hl, hmem⟩)
  · rw [hweigh.value hops.2 hk, hvalue (Function.update σ y k),
      hpass.value hc hone hw trivial hops.1.1 (hstored.mono fun o ho => by simp [ho]) hk σ,
      Sends.before, one_mul]
    refine (Node.total_append hw.depends (fun u g hg hu => (hregion.sealed u g hu).2 (by simp [hg]))
      (fun u g hg hu => (hrest.sealed u g hu).2 hg) ?_ ?_ _).symm
    · exact fun u hu hu' => hdisj hu' hu
    · exact fun u hu hu' => hdisj (mem_cons_of_mem _ hu) hu'

end BeliefLogic
