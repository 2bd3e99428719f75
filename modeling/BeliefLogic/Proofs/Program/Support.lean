import BeliefLogic.Proofs.Program.Depth

/-!
# Queries that can be answered

A plan can be evaluated on a row exactly if every row and matrix that it reads is that of a stored
relation.
-/

namespace BeliefLogic

open Outcome Run Bindings List

namespace Operation

@[simp] def reads : Operation → List String
  | .act _ a => a.reads
  | .call _ x _ => [x]

/-- Every operation reads variables that are bound before, or given. -/
def Ready (given : Set String) : List Operation → Prop
  | [] => True
  | o :: ops => (∀ x ∈ o.reads, x ∈ given) ∧ Ready (insert o.target given) ops

/-- The variables that are bound after operations. -/
def bound (given : Set String) (ops : List Operation) : Set String :=
  given ∪ {x | x ∈ ops.map target}

variable {given : Set String} {ops ops' : List Operation}

theorem bound_cons (o : Operation) :
    bound given (o :: ops) = bound (insert o.target given) ops := by
  ext x
  simp only [bound, map_cons, mem_cons, Set.mem_union, Set.mem_insert_iff,
    Set.mem_ofPred_eq]
  tauto

theorem bound_append : bound given (ops ++ ops') = bound (bound given ops) ops' := by
  ext x
  simp [bound, or_assoc]

theorem mem_bound {x : String} (h : x ∈ given) : x ∈ bound given ops := .inl h

theorem ready_append :
    Ready given (ops ++ ops') ↔ Ready given ops ∧ Ready (bound given ops) ops' := by
  induction ops generalizing given with
  | nil => simp [Ready, bound]
  | cons o ops ih => rw [cons_append, Ready, Ready, ih, bound_cons, and_assoc]

theorem ready_concat {o : Operation} (h : Ready given ops)
    (ho : ∀ x ∈ o.reads, x ∈ bound given ops) :
    Ready given (ops ++ [o]) ∧ o.target ∈ bound given (ops ++ [o]) :=
  ⟨ready_append.2 ⟨h, ho, trivial⟩, .inr (by simp)⟩

end Operation

open Operation

def Request.Starts (given : Set String) : Request → Prop
  | .times _ _ p _ => p ∈ given
  | _ => True

/-- The operations of a message read what is bound, and bind the message. -/
theorem Sends.ready {c : Circuit} {q : Request} {m : String} {ops : List Operation} {ns : List Node}
    (h : Sends c False q m ops ns) (hinside : ∀ o ∈ ops, o.IsInside) {given : Set String}
    (hin : ∀ v ∈ c.inputs 0, v ∈ given) (hq : q.Starts given) :
    Ready given ops ∧ m ∈ bound given ops := by
  induction h generalizing given with
  | outside _ hmem => exact absurd rfl (hinside _ hmem _ _ _)
  | head hv => exact ⟨trivial, mem_bound (hin _ hv)⟩
  | assigned | row | preimage =>
    have hnil : Ready given [] := trivial
    exact ready_concat hnil (by simp)
  | forward _ _ _ _ _ _ _ ih | call _ _ _ _ _ _ _ ih | backward _ _ _ _ _ _ _ ih =>
    rw [forall_mem_append] at hinside
    obtain ⟨hready, hm⟩ := ih hinside.1 hin trivial
    exact ready_concat hready (by simpa using hm)
  | ask _ _ _ _ ih ih' =>
    rw [forall_mem_append] at hinside
    obtain ⟨hready, hm⟩ := ih hinside.1 hin trivial
    obtain ⟨hready', hm'⟩ := ih' hinside.2 (fun v hv => mem_bound (hin v hv)) hm
    rw [ready_append, bound_append]
    exact ⟨⟨hready, hready'⟩, hm'⟩
  | done => exact ⟨trivial, mem_bound hq⟩
  | @factor v j p g gs _ _ ops _ _ _ _ _ ih ih' =>
    generalize productName v j g gs = next at *
    rw [forall_mem_append, forall_mem_cons] at hinside
    obtain ⟨hready, hm⟩ := ih hinside.1 hin trivial
    have hp : p ∈ bound given ops := mem_bound hq
    have hnext : next ∈ insert next (bound given ops) := Set.mem_insert ..
    obtain ⟨hready', hm'⟩ := ih' hinside.2.2 (fun v hv => .inr (mem_bound (hin v hv))) hnext
    rw [ready_append, bound_append, bound_cons]
    refine ⟨⟨hready, ?_, hready'⟩, hm'⟩
    simpa using ⟨hp, hm⟩

variable {ops : List Operation}

theorem SendsRest.ready {c : Circuit} {body : List Goal} {extra : ℕ} {seen ms : List String}
    {nss : List (List Node)} (h : SendsRest c body extra seen ms ops nss)
    (hinside : ∀ o ∈ ops, o.IsInside) {given : Set String} (hin : ∀ v ∈ c.inputs 0, v ∈ given) :
    Ready given ops ∧ ∀ m ∈ ms, m ∈ bound given ops := by
  induction h generalizing given with
  | done => exact ⟨trivial, by simp⟩
  | more _ _ hsend _ ih =>
    rw [forall_mem_append] at hinside
    obtain ⟨hready, hm⟩ := hsend.ready hinside.1 hin trivial
    obtain ⟨hready', hms⟩ := ih hinside.2 fun v hv => mem_bound (hin v hv)
    rw [ready_append, bound_append]
    exact ⟨⟨hready, hready'⟩, forall_mem_cons.2 ⟨mem_bound hm, hms⟩⟩

theorem Weighs.ready {ms : List String} {y p out : String}
    (h : Weighs y ms p out ops) {given : Set String} (hp : p ∈ given) (hms : ∀ m ∈ ms, m ∈ given) :
    Ready given ops ∧ out ∈ bound given ops := by
  induction h generalizing given with
  | done => exact ⟨trivial, mem_bound hp⟩
  | more _ ih =>
    obtain ⟨hm, hms⟩ := forall_mem_cons.1 hms
    obtain ⟨hready, hout⟩ := ih (Set.mem_insert ..) fun z hz => .inr (hms z hz)
    rw [bound_cons]
    refine ⟨⟨?_, hready⟩, hout⟩
    simpa using ⟨hm, hp⟩

/-- The operations of a rule read what is bound, and bind its result. -/
theorem Emits.ready {c : Circuit} {body : List Goal} {out : String}
    (h : Emits c body out ops) (hinside : ∀ o ∈ ops, o.IsInside) (given : Set String)
    (hin : ∀ v ∈ c.inputs 0, v ∈ given) : Ready given ops ∧ out ∈ bound given ops := by
  obtain ⟨-, hsend, hrest, -, hweigh⟩ := h
  rw [forall_mem_append, forall_mem_append] at hinside
  obtain ⟨hready, hm⟩ := hsend.ready hinside.1.1 hin trivial
  obtain ⟨hready', hms⟩ := hrest.ready hinside.1.2 fun v hv => mem_bound (hin v hv)
  obtain ⟨hready'', hout⟩ := hweigh.ready (mem_bound hm) hms
  simp only [ready_append, bound_append]
  exact ⟨⟨⟨hready, hready'⟩, hready''⟩, hout⟩

section

variable {α : Type} {db : Database α} {n : ℕ}
variable {mode : Mode}

/-- Every mode of a stored relation of two arguments has a matrix. -/
theorem Database.Regular.exists_operand (hdb : db.Regular n) (ha : mode.arity = 2)
    (hs : db.Stores mode.predicate) (transpose : Bool) :
    ∃ x, db.operand mode transpose = .ok x := by
  obtain ⟨y, hy⟩ := Option.isSome_iff_exists.1 hs
  rw [Mode.predicate, ha] at hy
  obtain ⟨m, rfl, -⟩ := hdb.binary hy
  by_cases hf : isForward mode = transpose
  · exact ⟨_, operand_ok_iff.2 ⟨ha, _, hy, if_pos hf⟩⟩
  · exact ⟨_, operand_ok_iff.2 ⟨ha, _, hy, if_neg hf⟩⟩

theorem Database.exists_rowOperand (ha : mode.arity = 1) (hs : db.Stores mode.predicate) :
    ∃ x, db.rowOperand mode = .ok x := by
  obtain ⟨y, hy⟩ := Option.isSome_iff_exists.1 hs
  rw [Mode.predicate, ha] at hy
  exact ⟨y, rowOperand_ok_iff.2 ⟨ha, hy⟩⟩

theorem Database.Regular.exists_preimage [ExactScalar α] (hdb : db.Regular n) (ha : mode.arity = 2)
    (hs : db.Stores mode.predicate) : ∃ m, db.preimage mode = .ok m := by
  obtain ⟨o, ho, hos, -⟩ := hdb.ones_spec (if isForward mode == true then
    db.schema.range ⟨mode.functor, 2⟩ else db.schema.domain ⟨mode.functor, 2⟩)
  obtain ⟨x, hx⟩ := hdb.exists_operand ha hs true
  obtain ⟨m, hm, -⟩ := hdb.carry_ok hx hos
  have hones : db.preimageOnes mode = .ok o :=
    then_ok.2 ⟨_, then_ok.2 ⟨_, isTransposed_eq ha true, rfl⟩, ho⟩
  exact ⟨m, then_ok.2 ⟨o, hones, then_ok.2 ⟨x, hx, hm⟩⟩⟩

end

section

variable {α : Type}

/-- Rows are of relations of one argument, nothing is of defined relations. -/
def Action.Served (p : Program) (db : Database α) : Action → Prop
  | .vector mode => mode.arity = 1 ∧ (p.defines mode = true → db.Stores mode.predicate)
  | .product _ mode _ => p.defines mode = true → db.Stores mode.predicate
  | _ => True

def NodeCheck.served (p : Program) (db : Database α) : NodeCheck where
  plan
    | .sequence _ xs _ _ _ => xs.length = 1
    | _ => True
  step
    | .act _ a => a.Served p db
    | .call .. => True

/-- Rules take one input, and all actions are served. -/
abbrev Plan.Served (p : Program) (db : Database α) (q : Plan) : Prop := q.Meets (.served p db)

theorem NodeCheck.Bare.served (p : Program) (db : Database α) : (NodeCheck.served p db).Bare where
  plan q := by cases q <;> exact .rfl
  step t := by cases t <;> exact .rfl

end

section

variable {α : Type} [ExactScalar α] {s : Settings α} {p : Program} {db : Database α} {n : ℕ}

theorem Action.served_of_ok (hdb : db.Regular n) {b : Bindings α} {type : Option String}
    {a : Action} {m : Matrix α} (h : a.eval s db b type = .ok m) : a.Served p db := by
  obtain ⟨hfit, -⟩ := Action.fits_of_ok hdb h
  cases a with
  | vector mode =>
    obtain ⟨x, hx⟩ := hfit
    exact ⟨(hdb.rowOperand_ok hx).1.1, fun _ => (hdb.rowOperand_ok hx).1.2⟩
  | product source mode transpose =>
    obtain ⟨x, hx⟩ := hfit
    exact fun _ => (hdb.operand_ok hx).1.2
  | _ => trivial

mutual

/-- A plan that has a result for a row is served. -/
theorem Plan.served_of_result (hdb : db.Regular n) : ∀ (q : Plan) (x m : Matrix α),
    q.result s db [x] = .ok m → q.Served p db
  | .null _ _, _, _, _ => trivial
  | .log _ q, x, m, h => by
    obtain ⟨y, hy, -⟩ := then_ok.1 h
    exact ⟨trivial, Plan.served_of_result hdb q x y hy⟩
  | .softmax _ q, x, m, h => by
    obtain ⟨y, hy, -⟩ := then_ok.1 h
    exact ⟨trivial, Plan.served_of_result hdb q x y hy⟩
  | .sum _ qs, x, m, h => by
    obtain ⟨ms, hms, -⟩ := then_ok.1 h
    exact ⟨trivial, Plan.allServed_of_results hdb qs x ms hms⟩
  | .sequence _ xs y ss _, x, m, h => by
    rw [Plan.result] at h
    split at h
    · next hlen =>
      obtain ⟨b, hb, -⟩ := then_ok.1 h
      exact ⟨hlen, Step.allServed_of_bindAll hdb ss _ b hb⟩
    · cases h

theorem Plan.allServed_of_results (hdb : db.Regular n) : ∀ (qs : List Plan) (x : Matrix α)
    (ms : List (Matrix α)), Plan.results s db [x] qs = .ok ms → Plan.AllMeet (.served p db) qs
  | [], _, _, _ => trivial
  | q :: qs, x, ms, h => by
    simp only [Plan.results, then_ok] at h
    obtain ⟨m, hm, ms', hms', -⟩ := h
    exact ⟨Plan.served_of_result hdb q x m hm, Plan.allServed_of_results hdb qs x ms' hms'⟩

theorem Step.served_of_result (hdb : db.Regular n) : ∀ (t : Step) (b : Bindings α) (m : Matrix α),
    t.result s db b = .ok m → t.Meets (.served p db)
  | .act _ _, _, _, h => Action.served_of_ok hdb h
  | .call _ x _ _ q, b, m, h => by
    obtain ⟨source, -, h⟩ := then_ok.1 h
    exact ⟨trivial, Plan.served_of_result hdb q source m h⟩

theorem Step.allServed_of_bindAll (hdb : db.Regular n) : ∀ (ts : List Step) (b b' : Bindings α),
    Step.bindAll s db ts b = .ok b' → Step.AllMeet (.served p db) ts
  | [], _, _, _ => trivial
  | t :: ts, b, b', h => by
    obtain ⟨m, hm, h⟩ := then_ok.1 h
    exact ⟨Step.served_of_result hdb t b m hm, Step.allServed_of_bindAll hdb ts _ b' h⟩

end

end

/-- Relations that are stored have one or two arguments. -/
def Database.IsNarrow {α : Type} (db : Database α) : Prop :=
  ∀ q, db.Stores q → q.arity = 1 ∨ q.arity = 2

/-- The relation of a goal is defined or stored, unless the goal assigns a constant that is known.
-/
structure Program.Supports {α : Type} (p : Program) (db : Database α) (g : Goal) : Prop where
  relation : p.definesGoal g = true ∨ db.Stores ⟨g.functor, g.arity⟩ ∨ (g.functor = assignment ∧
    ∃ v a rest, g.args = v :: a :: rest ∧ isVariableName v = true ∧ isVariableName a = false ∧
      ∀ t ∈ rest, isVariableName t = false)
  constant : g.functor = assignment → ∀ a, g.args[1]? = some a → isVariableName a = false →
    ∃ k, db.idOf? a = some k

/-- No variable ends in a digit or stands in a goal twice, and goals assign as is meant. -/
def Rule.NamesApart (r : Rule) : Prop :=
  (∀ g ∈ r.head.toList ++ r.body, ∀ v ∈ g.variableNames, Text.EndsPlain v) ∧
    ∀ g ∈ r.body, g.WellAssigned ∧ g.variableNames.Nodup

namespace Circuit.Analyses

variable {c : Circuit} {p : Program} {mode : Mode} {r : Rule} {head : Goal} {body : List Goal}
  {j : ℕ} {m : Mode}

/-- What is assigned stands in the goal, and is not a variable. -/
theorem assigned_constant (h : c.Analyses p mode r head body) (hin : c.inputs (j + 1) = [])
    (hm : c.mode? (j + 1) = some m) (harity : 2 ≤ m.arity) (hconst : m.isConst 1 = true) :
    ∃ g b, body[j]? = some g ∧ m.functor = g.functor ∧
      g.args[1]? = some b ∧ isVariableName b = false ∧ m.args.getD 1 "" = b := by
  obtain ⟨g, hg, hf, ha, hargs, -⟩ := h.goal_of_mode hm
  obtain ⟨b, hb⟩ : ∃ b, g.args[1]? = some b := by
    have : 1 < g.args.length := by
      have : g.arity = g.args.length := rfl
      omega
    exact ⟨_, getElem?_eq_getElem this⟩
  have hget : m.args[1]? = some (c.direction (j + 1) b) := by
    rw [hargs, getElem?_map, hb]
    rfl
  simp only [Mode.isConst, Mode.isInput, Mode.isOutput, hget] at hconst
  have hnot : b ∉ c.inputs (j + 1) ∧ b ∉ c.outputs (j + 1) := by
    constructor
    · intro hmem
      simp [direction, hmem] at hconst
    · intro hmem
      simp [direction, hin, hmem] at hconst
  have hdir : c.direction (j + 1) b = b := by simp [direction, hnot]
  refine ⟨g, b, hg, hf, hb, ?_, ?_⟩
  · by_contra hvar
    have hmem : b ∈ g.variableNames :=
      mem_filter.2 ⟨mem_of_getElem? hb, by simpa using hvar⟩
    exact ((h.covers.mem_iff j b).2 ⟨g, hg, hmem⟩).elim hnot.1 hnot.2
  · rw [getD_eq_getElem?_getD, hget, Option.getD_some, hdir]

/-- The operations for one input bind different variables. -/
theorem nodup_targets {out : String} {ops : List Operation} (h : c.Analyses p mode r head body)
    (hnames : r.NamesApart) (hin : (c.inputs 0).length = 1) (hemits : Emits c body out ops)
    (hplain : ∀ o ∈ ops, o.Plain) (hgiven : ∀ x ∈ c.inputs 0, x ∉ ops.map target) :
    (ops.map target).Nodup := by
  obtain ⟨u, hu⟩ := length_eq_one_iff.1 hin
  obtain ⟨v, hdesc, hargs⟩ := h.describes hu
  have humem : u ∈ head.args := by
    rcases hargs with ⟨hargs, -⟩ | ⟨hargs, -⟩ <;> simp [hargs]
  have hmem {j : ℕ} {g : Goal} (hg : body[j]? = some g) : g ∈ r.body :=
    h.perm.mem_iff.1 (mem_of_getElem? hg)
  refine hemits.nodup_targets hdesc (fun w j hw => ?_)
    (hdesc.assigns fun g hg => (hnames.2 g (h.perm.mem_iff.1 hg)).1) (fun j w hw => ?_) hplain
    (hgiven u (hu ▸ mem_singleton_self u))
  · cases j with
    | zero =>
      obtain rfl : w = u := by simpa [Stands, hu] using hw
      exact hnames.1 head (by simp [h.head_eq]) w (mem_filter.2 ⟨humem, h.names w humem⟩)
    | succ j =>
      obtain ⟨g, hg, hw⟩ := (hdesc.covers.mem_iff j w).1 hw
      exact hnames.1 g (by simp [hmem hg]) w hw
  · obtain ⟨g, hg, -⟩ := (hdesc.covers.mem_iff j w).1 (.inl hw)
    exact hdesc.covers.separate j g hg (hnames.2 g (hmem hg)).2 w hw

variable {α : Type} {db : Database α} {n : ℕ}

/-- The relation of a goal with input and output is stored, or rules define it. -/
theorem stores_of_carrier (h : c.Analyses p mode r head body) (hnarrow : db.IsNarrow)
    (hsup : ∀ g ∈ body, p.Supports db g) (hm : c.mode? (j + 1) = some m) {x y : String}
    (hx : x ∈ c.inputs (j + 1)) (hy : y ∈ c.outputs (j + 1))
    (hdef : p.defines m = true → db.Stores m.predicate) : m.arity = 2 ∧ db.Stores m.predicate := by
  obtain ⟨g, hg, hf, ha, -, -, hd⟩ := h.goal_of_mode hm
  have htwo := h.two_le_variableNames hg hx hy
  have hle : g.variableNames.length ≤ g.arity := length_filter_le ..
  have hpred : m.predicate = ⟨g.functor, g.arity⟩ := by simp [Mode.predicate, hf, ha]
  have hstores : db.Stores m.predicate := by
    rcases (hsup g (mem_of_getElem? hg)).relation with hdefined | hstored | hassign
    · exact hdef (hd.trans hdefined)
    · exact hpred ▸ hstored
    · -- An assignment has one variable only.
      obtain ⟨-, v, a, rest, hargs, hv, ha, hrest⟩ := hassign
      have : g.variableNames = [v] := by
        simpa [Goal.variableNames, hargs, hv, ha] using hrest
      simp [this] at htwo
  have harity : (m.arity : ℤ) = 1 ∨ (m.arity : ℤ) = 2 := hnarrow _ hstores
  exact ⟨by omega, hstores⟩

/-- An action of known relations fits the database, if it is served. -/
theorem fits_of_served [ExactScalar α] (h : c.Analyses p mode r head body)
    (hdb : db.Regular n) (hnarrow : db.IsNarrow) (hsup : ∀ g ∈ body, p.Supports db g) {t : String}
    {a : Action} (ha : c.Arises (.act t a)) (hs : a.Served p db) : a.Fits db := by
  generalize ho : Operation.act t a = o at ha
  cases ha with
  | @assigned j v m hv hin hm hf harity hconst =>
    cases ho
    obtain ⟨g, b, hg, hf', hb, hvar, hget⟩ := h.assigned_constant hin hm harity hconst
    obtain ⟨k, hk⟩ := (hsup g (mem_of_getElem? hg)).constant (hf'.symm.trans hf) b hb hvar
    exact ⟨k, hget ▸ hk⟩
  | @forward j v x m z hv hin hm hd =>
    cases ho
    obtain ⟨ha, hst⟩ := h.stores_of_carrier hnarrow hsup hm (hin ▸ mem_singleton_self x) hv hs
    exact hdb.exists_operand ha hst false
  | call => cases ho
  | @row j v m hv hout hm =>
    cases ho
    obtain ⟨g, hg, hf, ha, -, -, hd⟩ := h.goal_of_mode hm
    have hpred : m.predicate = ⟨g.functor, g.arity⟩ := by simp [Mode.predicate, hf, ha]
    refine Database.exists_rowOperand hs.1 ?_
    rcases (hsup g (mem_of_getElem? hg)).relation with hdefined | hstored | hassign
    · exact hs.2 (hd.trans hdefined)
    · exact hpred ▸ hstored
    · obtain ⟨-, v, a, rest, hargs, -⟩ := hassign
      have hone : g.args.length = 1 := ha.symm.trans hs.1
      simp [hargs] at hone
  | @preimage j v y m hv hout hm hd =>
    cases ho
    obtain ⟨g, hg, -, -, -, hd', hdef⟩ := h.goal_of_mode hm
    obtain ⟨ha, hst⟩ := h.stores_of_carrier hnarrow hsup hm hv (hout ▸ mem_singleton_self y)
      fun hyes => by
        rw [hdef, ← hd', hd] at hyes
        cases hyes
    exact hdb.exists_preimage ha hst
  | @backward j v y m z hv hout hm =>
    cases ho
    obtain ⟨ha, hst⟩ := h.stores_of_carrier hnarrow hsup hm hv (hout ▸ mem_singleton_self y) hs
    exact hdb.exists_operand ha hst true
  | factor => cases ho; trivial
  | weight => cases ho; trivial

end Circuit.Analyses

section

variable {α : Type} [ExactScalar α] {s : Settings α} {p : Program} {db : Database α} {n : ℕ}
  {plan : Plan}

/-- A plan has a row as its result for every row. -/
def Plan.Answers (s : Settings α) (db : Database α) (n : ℕ) (q : Plan) : Prop :=
  ∀ x, x.Shaped 1 n → ∃ m, q.result s db [x] = .ok m ∧ m.Shaped 1 n

/-- Steps have values if actions fit and called plans answer. -/
theorem Step.exists_bindAll (hdb : db.Regular n) (hlimit : s.denseLimit ≠ .undefined)
    {ts : List Step} {given : Set String} (hready : Ready given (ts.map Step.operation))
    (hfits : ∀ i a, .act i a ∈ ts → a.Fits db)
    (hcalls : ∀ i x m d q, .call i x m d q ∈ ts → q.Answers s db n) {b : Bindings α}
    (hb : b.Single n) (hbound : ∀ x ∈ given, b.IsBound x) :
    ∃ b', Step.bindAll s db ts b = .ok b' ∧ b'.Single n ∧
      ∀ x ∈ bound given (ts.map Step.operation), b'.IsBound x := by
  induction ts generalizing b given with
  | nil => exact ⟨b, rfl, hb, by simpa [bound] using hbound⟩
  | cons t ts ih =>
    obtain ⟨hreads, hready⟩ := hready
    have hreads : ∀ x ∈ t.operation.reads, b.IsBound x := fun x hx => hbound x (hreads x hx)
    obtain ⟨m, hm, hms⟩ : ∃ m, t.result s db b = .ok m ∧ m.Shaped 1 n := by
      cases t with
      | act i a =>
        have hal : a.Aligned fun _ => true := by cases a <;> simp [Action.Aligned]
        rcases Action.eval_spec hdb one_pos hb i.type (hfits i a mem_cons_self) hal
          hreads with ⟨hu, -⟩ | ⟨m, hm, hms, -⟩
        · exact absurd hu hlimit
        · exact ⟨m, hm, by rwa [ite_self] at hms⟩
      | call i x mode d q =>
        obtain ⟨source, hsource⟩ := hreads x (by simp [Step.operation])
        obtain ⟨m, hm, hms⟩ := hcalls i x mode d q mem_cons_self source (hb x source hsource)
        exact ⟨m, then_ok.2 ⟨source, hsource, hm⟩, hms⟩
    obtain ⟨b', hb', hrows, hbound'⟩ := ih hready
      (fun i a h => hfits i a (mem_cons_of_mem _ h))
      (fun i x e d q h => hcalls i x e d q (mem_cons_of_mem _ h))
      (hb.bind t.target hms) fun x hx => by
        rw [Step.target_operation] at hx
        exact isBound_bind.2 (hx.imp Eq.symm (hbound x))
    refine ⟨b', then_ok.2 ⟨m, hm, hb'⟩, hrows, ?_⟩
    rw [map_cons, bound_cons]
    exact hbound'

/-- Steps without plugins read and bind rows inside the rule. -/
theorem Step.isInside_of_plugins {steps : List Step}
    (h : ∀ i xs m, .act i (.plugin xs m) ∉ steps) :
    ∀ o ∈ steps.map Step.operation, o.IsInside := by
  refine forall_mem_map.2 fun t ht x ss m heq => ?_
  cases t with
  | act i a =>
    obtain ⟨-, rfl⟩ : i.target = x ∧ a = .plugin ss m := by simpa [Step.operation] using heq
    exact h i ss m ht
  | call => cases heq

/-- In the plan of a rule no step binds a variable that is given, every step reads variables that
are given or that a step before it binds, and the result is one of them. For one input, plain steps
bind different variables if the names of the rule are apart. -/
theorem rulePlan_reads_bound {α : Type} {schema : Option Schema} {fuel : ℕ} {mode : Mode} {depth : ℕ}
    {r : Rule} {t t' : World α × Program} {plan : Plan} (hplugins : ∀ m, t.2.plugins.has m = false)
    (hplan : planForRule schema fuel mode depth r t = .ok plan t') :
    ∃ info inputs out steps r', plan = .sequence info inputs out steps r' ∧
      (∀ before s after, steps = before ++ s :: after → s.target ∉ inputs ∧
        ∀ x ∈ s.operation.reads, x ∈ inputs ∨ ∃ s' ∈ before, s'.target = x) ∧
      (out ∈ inputs ∨ ∃ s ∈ steps, s.target = out) ∧
      (r.NamesApart → inputs.length = 1 → (∀ s ∈ steps, s.operation.Plain) →
        (steps.map Step.target).Nodup) := by
  obtain ⟨hc, hemits, -, hplug⟩ := rulePlanned_of_ok hplan
  rename_i c head body info out steps r'
  have hinside := Step.isInside_of_plugins fun i xs m hm => by
    simpa [hplugins m] using hplug i xs m hm
  obtain ⟨hready, hout⟩ := hemits.ready hinside {x | x ∈ c.inputs 0} fun v hv => hv
  have hgiven : ∀ x ∈ c.inputs 0, x ∉ (steps.map Step.operation).map target := by
    intro x hx hmem
    obtain ⟨o, ho, rfl⟩ := mem_map.1 hmem
    have hname : isVariableName o.target = true :=
      hc.names _ (Flow.mem_of_mem_headArgs (hc.inputs_head ▸ hx))
    rw [(hemits.arises hinside o ho).isVariableName_target] at hname
    cases hname
  have htargets : (steps.map Step.operation).map target = steps.map Step.target := by
    simp [Function.comp_def]
  refine ⟨info, c.inputs 0, out, steps, r', rfl, ?_, by simpa [bound] using hout,
    fun hnames hone hplain =>
      htargets ▸ hc.nodup_targets hnames hone hemits (forall_mem_map.2 hplain) hgiven⟩
  rintro before s after rfl
  refine ⟨fun hs => hgiven _ hs (by simp), fun x hx => ?_⟩
  rw [map_append, map_cons, ready_append] at hready
  simpa [bound] using hready.2.1 x hx

open Sample in
/-- The steps for paths of two edges. -/
theorem rulePlan_reads_bound_paths : ∃ info inputs out steps r',
    Sample.plan = .sequence info inputs out steps r' ∧
      (∀ before s after, steps = before ++ s :: after → s.target ∉ inputs ∧
        ∀ x ∈ s.operation.reads, x ∈ inputs ∨ ∃ s' ∈ before, s'.target = x) ∧
      (out ∈ inputs ∨ ∃ s ∈ steps, s.target = out) ∧ (steps.map Step.target).Nodup := by
  obtain ⟨info, inputs, out, steps, r', hplan, hreads, hout, hnodup⟩ :=
    rulePlan_reads_bound (fun _ => rfl) planForRule_paths
  refine ⟨info, inputs, out, steps, r', hplan, hreads, hout, ?_⟩
  cases hplan
  have hbody : ∀ g ∈ paths.body, g.functor ≠ assignment ∧ g.variableNames.Nodup := by
    decide +kernel
  refine hnodup ⟨by decide +kernel, fun g hg => ?_⟩ rfl ?_
  · exact (hbody g hg).imp_left fun hne h => absurd h hne
  · simp [Step.operation, Operation.Plain, Mode.arity, Goal.arity]

/-- The plan of a rule whose relations are known answers, if it is served. -/
theorem RulePlanned.answers {Q : Mode → ℤ → Plan → Prop} {mode : Mode} {d : ℤ} {r : Rule}
    (h : RulePlanned p Q mode d r plan) (hdb : db.Regular n) (hnarrow : db.IsNarrow)
    (hlimit : s.denseLimit ≠ .undefined) (hplugins : ∀ m, p.plugins.has m = false)
    (hsup : ∀ g ∈ r.body, p.Supports db g)
    (hcalls : ∀ m q, Q m (d + 1) q → q.Served p db → q.Answers s db n) (hserved : plan.Served p db)
    : plan.Answers s db n := by
  obtain ⟨hc, hemits, hsteps, hplug⟩ := h
  rename_i c head body info out steps r'
  obtain ⟨hlen, hserved⟩ := hserved
  rw [Step.allMeet_iff] at hserved
  obtain ⟨u, hu⟩ := length_eq_one_iff.1 hlen
  have hinside := Step.isInside_of_plugins fun i xs m hm => by
    simpa [hplugins m] using hplug i xs m hm
  have harises := hemits.arises hinside
  have hsup : ∀ g ∈ body, p.Supports db g := fun g hg => hsup g (hc.perm.mem_iff.1 hg)
  obtain ⟨hready, hout⟩ := hemits.ready hinside {u} (by simp [hu])
  intro x hx
  obtain ⟨b', hb', hrows, hbound⟩ := Step.exists_bindAll hdb hlimit hready
    (fun i a ha => hc.fits_of_served hdb hnarrow hsup
      (harises _ (mem_map_of_mem ha)) (hserved _ ha))
    (fun i y m e q hq => hcalls m q (hsteps i y m e q hq).2 (hserved _ hq).2)
    (single_start hx u) fun y hy => ⟨x, value_start.2 ⟨hy.symm, rfl⟩⟩
  obtain ⟨m, hm⟩ := hbound out hout
  refine ⟨m, ?_, hrows out m hm⟩
  rw [hu]
  exact then_ok.2 ⟨b', hb', hm⟩

/-- Plans that answer have results together. -/
theorem Plan.exists_results {qs : List Plan} (hqs : ∀ q ∈ qs, q.Answers s db n) {x : Matrix α}
    (hx : x.Shaped 1 n) : ∃ ms, Plan.results s db [x] qs = .ok ms ∧ ms.length = qs.length ∧
      ∀ m ∈ ms, m.Shaped 1 n := by
  induction qs with
  | nil => exact ⟨[], rfl, rfl, by simp⟩
  | cons q qs ih =>
    obtain ⟨hq, hqs⟩ := forall_mem_cons.1 hqs
    obtain ⟨m, hm, hms⟩ := hq x hx
    obtain ⟨ms, hms', hlen, hshaped⟩ := ih hqs
    refine ⟨m :: ms, ?_, by simp [hlen], forall_mem_cons.2 ⟨hms, hshaped⟩⟩
    simp only [Plan.results, then_ok]
    exact ⟨m, hm, ms, hms', rfl⟩

/-- The plan of a mode answers if the plans of its rules do. -/
theorem OfRules.answers (hdb : db.Regular n) {P : Rule → Plan → Prop} {rules : List Rule}
    (h : OfRules P rules plan) (hP : ∀ r ∈ rules, ∀ q, P r q → q.Served p db → q.Answers s db n)
    (hserved : plan.Served p db) : plan.Answers s db n := by
  cases h with
  | one hplan => exact hP _ (mem_singleton_self _) _ hplan hserved
  | @many r r' rules plans hall =>
    have hbare := Plan.bare_sumOf plans
    have hserved : (Plan.sum {} plans).Served p db := hserved.congr (.served p db) hbare
    have hserved : ∀ q ∈ plans, q.Served p db := Plan.allMeet_iff.1 hserved.2
    have hanswers : ∀ q ∈ plans, q.Answers s db n := fun q hq => by
      obtain ⟨r1, hr1, hplan⟩ := exists_of_forall₂ hall.flip q hq
      exact hP r1 hr1 q hplan (hserved q hq)
    intro x hx
    obtain ⟨ms, hms, hlen, hshaped⟩ := Plan.exists_results hanswers hx
    cases ms with
    | nil =>
      have := hall.length_eq
      simp [← hlen] at this
    | cons m ms =>
      obtain ⟨hm, hrest⟩ := forall_mem_cons.1 hshaped
      obtain ⟨y, hy, hys, -⟩ := Matrix.exists_foldlM_add ms hm hrest
      refine ⟨y, Plan.result_congr hdb hbare.symm ?_, hys⟩
      exact then_ok.2 ⟨m :: ms, hms, hy⟩

variable (hdb : db.Regular n) (hnarrow : db.IsNarrow) (hlimit : s.denseLimit ≠ .undefined)
  (hplugins : ∀ m, p.plugins.has m = false)
  (hsup : ∀ r ∈ p.theory.rules, ∀ g ∈ r.body, p.Supports db g)

include hdb hnarrow hlimit hplugins hsup

/-- All served plans for calls of known relations answer. -/
theorem Program.grants_answers :
    p.Grants fun _ _ q => q.Served p db → q.Answers s db n where
  null mode _ _ _ x hx := by
    refine ⟨Matrix.empty 1 n, ?_, Matrix.shaped_empty 1 n⟩
    change db.zeros x.height _ = _
    rw [hdb.zeros_eq, hx.height_eq]
  made mode d plan _ h hserved := by
    refine OfRules.answers hdb h (fun r hr q hq hserved => ?_) hserved
    exact hq.answers hdb hnarrow hlimit hplugins
      (hsup r (Program.mem_rules_of_rulesFor hr)) (fun m q hq => hq) hserved
  key _ _ _ _ _ h := h

/-- A served plan of a query over known relations answers. -/
theorem QueryPlanned.answers (hnorm : p.normalization = .identity) {mode : Mode}
    (h : QueryPlanned p (fun _ _ q => q.Served p db → q.Answers s db n) mode plan)
    (hdepth : p.maxDepth.isExceededBy 0 = .ok false) (hserved : plan.Served p db) :
    plan.Answers s db n ∧ (s.IsSilent → plan.Meets (.told s)) := by
  rcases h with ⟨hex, -⟩ | ⟨-, made, normal, table, hmade, hnormal, rfl⟩
  · rw [hdepth] at hex
    cases hex
  · obtain rfl : made = normal := by simpa [hnorm, Program.normalize] using hnormal
    have hbare := Plan.bare_number false made 1 table
    have hmade := (Program.grants_answers hdb hnarrow hlimit hplugins hsup).made mode 0 made hdepth
      hmade (hserved.congr (.served p db) hbare)
    refine ⟨fun x hx => ?_, fun hs => (Plan.number_spec false made 1 table).told hs⟩
    obtain ⟨m, hm, hms⟩ := hmade x hx
    exact ⟨m, Plan.result_congr hdb hbare.symm hm, hms⟩

end

theorem Plan.isNumbered_of_eval {α : Type} [Scalar α] {db : Database α} {inputs : List (Matrix α)}
    {q : Plan} {t t' : World α × Scratch α} {m : Matrix α}
    (h : Plan.eval db inputs q t = .ok m t') : q.isNumbered = true := by
  have htold := (Plan.eval_ok q h).2.2
  cases q with
  | null => exact htold.1
  | _ => exact htold.1.1

/-- If all relations are known, the plan of a query can be evaluated on the row of an entity exactly
if the query is not too deep, its rules take one input, rows are those of relations of one argument,
and nothing is read that only rules define. -/
theorem queryPlan_evaluates_iff_served {α : Type} [ExactExponential α] {db : Database α} {n : ℕ}
    (hdb : db.Regular n) (hnarrow : db.IsNarrow) {p p' : Program} (hfresh : p.plans = {})
    (hplugins : ∀ m, p.plugins.has m = false)
    (hsup : ∀ r ∈ p.theory.rules, ∀ g ∈ r.body, p.Supports db g)
    (hnorm : p.normalization = .identity) {schema : Option Schema} {mode : Mode} {w w' : World α}
    {plan : Plan} (hplan : compile schema mode (w, p) = .ok plan (w', p'))
    {t : World α × Scratch α} (hsilent : t.1.settings.IsSilent)
    (hlimit : t.1.settings.denseLimit ≠ .undefined) {symbol : String} {type : Option String}
    {x : Matrix α} (hx : db.oneHot symbol type = .ok x) :
    (∃ y t', Plan.eval db [x] plan t = .ok y t' ∧ y.Shaped 1 n) ↔
      p.maxDepth.isExceededBy 0 = .ok false ∧ plan.Served p db := by
  have hplanned := compile_ok
    (Program.grants_answers (s := t.1.settings) hdb hnarrow hlimit hplugins hsup) hfresh hplan
  constructor
  · rintro ⟨y, t', hy, -⟩
    refine ⟨?_, Plan.served_of_result hdb plan x y (Plan.eval_ok plan hy).1⟩
    rcases hplanned with ⟨-, rfl⟩ | ⟨hdepth, -⟩
    · cases Plan.isNumbered_of_eval hy
    · exact hdepth
  · rintro ⟨hdepth, hserved⟩
    obtain ⟨a, -, hshaped, -⟩ := hdb.oneHot_ok hx
    obtain ⟨hanswers, htold⟩ :=
      hplanned.answers hdb hnarrow hlimit hplugins hsup hnorm hdepth hserved
    obtain ⟨y, hy, -⟩ := hanswers x hshaped
    obtain ⟨hends, hys⟩ := Plan.ends_of_result hdb plan (htold hsilent) x y hshaped hy
    obtain ⟨t', ht', -⟩ := hends t rfl
    exact ⟨y, t', ht', hys⟩

namespace Sample

theorem isNarrow_database : database.IsNarrow := by
  intro q hq
  obtain ⟨x, hx⟩ := Option.isSome_iff_exists.1 hq
  simp only [database, Dictionary.get?, Dictionary.lookup] at hx
  split at hx
  · next heq => exact .inr (by rw [← eq_of_beq heq])
  split at hx
  · next heq => exact .inl (by rw [← eq_of_beq heq])
  · cases hx

theorem supports_recursive : ∀ r ∈ recursive.theory.rules, ∀ g ∈ r.body,
    recursive.Supports database g := by
  have hedge (u v : String) : recursive.Supports database ⟨"edge", [u, v]⟩ :=
    ⟨.inr (.inl (show (database.relations.get? ⟨"edge", 2⟩).isSome = true by decide)),
      fun h => absurd h (show "edge" ≠ assignment by decide)⟩
  intro r hr g hg
  rcases mem_recursive hr with rfl | rfl
  · obtain rfl := mem_singleton.1 hg
    exact hedge "X" "Y"
  · rcases mem_pair.1 hg with rfl | rfl
    · exact hedge "X" "Z"
    · exact ⟨.inl (by decide), fun h => absurd h (by decide)⟩

/-- Steps along an edge, and on to something beyond the depth. -/
def reach : Plan :=
  .sum { inputTypes := some [none] }
    [.sequence { inputTypes := some [none] } ["X"] "f_Y1"
      [.act { target := "f_Y1", route := some ("edge(X,Y)", "Y") }
        (.product "X" ⟨⟨"edge", ["i", "o"]⟩⟩ false)] near,
    .sequence { inputTypes := some [none] } ["X"] "f_Y2"
      [.act { target := "f_Z1", route := some ("edge(X,Z)", "Z") }
          (.product "X" ⟨⟨"edge", ["i", "o"]⟩⟩ false),
        .call { target := "f_Y2", route := some ("reach(Z,Y)", "Y") } "f_Z1" reached 1
          (.null {} reached)] far]

/-- What is kept once the calls are planned. -/
def planned : Program := { recursive with plans := ⟨[((reached, 1), .null {} reached)]⟩ }

theorem planRules_reach (fuel : ℕ) :
    planRules (planForRule (some (.untyped symbols)) (fuel + 3) reached 0) reached [near, far]
      (world, recursive) = .ok reach (world, planned) := by
  with_unfolding_all rfl

theorem compile_reach : ∃ p', compile (some (.untyped symbols)) reached (world, recursive) =
    .ok ((Plan.number false reach 1).run (planned.plans.put (reached, 0) reach)).1.1 (world, p') :=
  compile_of_rules (by decide) rfl rfl (by decide) (planRules_reach 6) rfl

theorem served_reach : reach.Served recursive database :=
  ⟨trivial, ⟨rfl, fun h => absurd h (by decide), trivial⟩,
    ⟨rfl, fun h => absurd h (by decide), ⟨trivial, trivial⟩, trivial⟩, trivial⟩

end Sample

open Sample in
/-- What is reached from the first entity can be evaluated. -/
theorem queryPlan_evaluates_reach : ∃ plan p' y t',
    compile (some (.untyped symbols)) reached (world, recursive) = .ok plan (world, p') ∧
      plan.Served recursive database ∧ Plan.eval database [row] plan (world, {}) = .ok y t' ∧
        y.Shaped 1 3 := by
  obtain ⟨p', hplan⟩ := compile_reach
  have hserved := served_reach.congr (.served recursive database)
    (Plan.bare_number false reach 1 (planned.plans.put (reached, 0) reach)).symm
  obtain ⟨y, t', ht', hys⟩ := (queryPlan_evaluates_iff_served regular_database isNarrow_database rfl
    (fun _ => rfl) supports_recursive rfl hplan (t := (world, {})) ⟨rfl, rfl⟩ (by decide)
    oneHot_a).2 ⟨rfl, hserved⟩
  exact ⟨_, p', y, t', hplan, hserved, ht', hys⟩

end BeliefLogic
