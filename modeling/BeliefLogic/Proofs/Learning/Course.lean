import BeliefLogic.Proofs.Endings
import BeliefLogic.Proofs.Learning.Updates
import BeliefLogic.Proofs.Program.Queries

/-!
# The course of training

Training touches a database only by putting matrices of the old shape that are not negative in the
place of parameters. So do all runs, also those that fail.
-/

namespace BeliefLogic

open Outcome Run List

variable {α : Type} [ExactScalar α] {db : Database α} {m n : Matrix α} {c : α} {x : Operand α}

namespace Matrix

def Nonneg (m : Matrix α) : Prop := ∀ i j, 0 ≤ m.entry i j

/-- Two matrices have the same numbers of rows and columns. -/
def SameShape (m n : Matrix α) : Prop := m.height = n.height ∧ m.width = n.width

omit [ExactScalar α] in
theorem sameShape_map (f : α → α) (m : Matrix α) : (m.map f).SameShape m :=
  ⟨by simp [height, map, mapRows], rfl⟩

theorem rowEntry_nonneg {r : Row α} (h : ∀ e ∈ r, 0 ≤ e.2) (j : ℕ) : 0 ≤ rowEntry r j := by
  refine sum_nonneg fun x hx => ?_
  obtain ⟨e, he, rfl⟩ := mem_map.1 hx
  split
  · exact h e he
  · exact le_rfl

theorem Nonneg.scale (hm : m.Nonneg) (hc : 0 ≤ c) (h : m.scale c = .ok n) : n.Nonneg := by
  obtain rfl := ok_unique (scale_eq m c) h
  intro i j
  rw [entry_scale]
  exact mul_nonneg (hm i j) hc

theorem sameShape_scale (h : m.scale c = .ok n) : n.SameShape m := by
  obtain rfl := ok_unique (scale_eq m c) h
  exact sameShape_map _ m

theorem sameShape_add {s : Matrix α} (h : m.add n = .ok s) : s.SameShape m := by
  rw [add, zipWith] at h
  split at h
  · next hshape =>
    obtain rfl := Except.ok.inj h
    refine ⟨?_, rfl⟩
    simp only [height] at hshape
    simp [height, hshape.1]
  · cases h

theorem nonneg_clipped (m : Matrix α) : (m.clipped (some 0) Scalar.greatestSingle).Nonneg := by
  intro i j
  rw [entry_eq, clipped, row_mapValues]
  refine rowEntry_nonneg (fun e he => ?_) j
  obtain ⟨f, -, rfl⟩ := mem_map.1 he
  rw [clip_eq_max]
  exact le_max_left 0 f.2

end Matrix

/-- What may replace a parameter: a matrix of its shape, which is not negative unless the old one
was, and for a datum another one or a matrix that is not negative. -/
def Operand.Adjusted : Operand α → Operand α → Prop
  | .matrix m, .matrix n => n.SameShape m ∧ (m.Nonneg → n.Nonneg)
  | .matrix _, .datum _ => False
  | .datum _, .matrix n => n.Nonneg
  | .datum _, .datum _ => True

/-- The number of a share that leaves something of what it is taken from. -/
def Regularizer.Shrinks : Regularizer α → Prop
  | .none => True
  | .shrink share => ∃ c, share.number? = some c ∧ 0 ≤ c ∧ c ≤ 1
  | _ => False

namespace Operand

theorem adjusted_scaled {share : Datum α} (hc : share.number? = some c) (hle : c ≤ 1)
    {y : Operand α} (h : (do x.scaled (.real (← remainder share))) = .ok y) : x.Adjusted y := by
  have hrest : remainder share = .ok (1 - c) := by rw [remainder, hc]
  rw [hrest] at h
  change x.scaled (.real (1 - c)) = .ok y at h
  cases x with
  | matrix m =>
    obtain ⟨n, hn, rfl⟩ : ∃ n, m.scale (1 - c) = .ok n ∧ Operand.matrix n = y := by
      obtain ⟨f, hf, hscale⟩ := then_ok.1 h
      obtain rfl : 1 - c = f := Except.ok.inj hf
      obtain ⟨n, hn, hy⟩ := then_ok.1 hscale
      exact ⟨n, hn, except_pure_ok.1 hy⟩
    exact ⟨Matrix.sameShape_scale hn, fun hm => hm.scale (sub_nonneg.2 hle) hn⟩
  | datum d =>
    obtain ⟨e, -, hy⟩ := then_ok.1 h
    obtain rfl := except_pure_ok.1 hy
    trivial

theorem adjusted_moved {g : Matrix α} {rate : Amount α} (h : moved x (.matrix g) rate = .ok m) :
    x.Adjusted (.matrix m) := by
  simp only [moved, then_ok, except_pure_ok] at h
  obtain ⟨g', hg', y, hy, s, hs, rfl⟩ := h
  cases x with
  | datum d => exact s.nonneg_clipped
  | matrix x =>
    refine ⟨?_, fun _ => s.nonneg_clipped⟩
    obtain ⟨c, -, hscaled⟩ := then_ok.1 hg'
    obtain ⟨g'', -, hpure⟩ := then_ok.1 hscaled
    obtain rfl := except_pure_ok.1 hpure
    obtain ⟨n, hn, rfl⟩ : ∃ n, x.add g'' = .ok n ∧ Operand.matrix n = y := by
      obtain ⟨n, hn, hpure⟩ := then_ok.1 hy
      exact ⟨n, hn, except_pure_ok.1 hpure⟩
    obtain rfl := Except.ok.inj hs
    have hclip := Matrix.sameShape_map (Scalar.clip (some 0) Scalar.greatestSingle) n
    have hsum := Matrix.sameShape_add hn
    exact ⟨hclip.1.trans hsum.1, hclip.2.trans hsum.2⟩

end Operand

namespace Database

def Replaces (db db' : Database α) : Prop := ∃ p x, db.putParam p x = .ok db'

/-- One parameter was replaced by what may be put in its place. -/
def Adjusts (db db' : Database α) : Prop :=
  ∃ p x y, db.relations.get? p = some x ∧ x.Adjusted y ∧ db.putParam p y = .ok db'

/-- All parameters that are matrices have no negative entries. -/
def Nonneg (db : Database α) : Prop :=
  ∀ p m, db.isParam p = true → db.relation? p = some m → m.Nonneg

/-- Databases that differ at most in entries of parameters, none of them negative. -/
structure Preserves (db db' : Database α) : Prop where
  nonneg : db'.Nonneg
  shape : ∀ p m, db.isParam p = true → db.relation? p = some m →
    ∃ m', db'.relation? p = some m' ∧ m'.SameShape m
  other : ∀ p, db.isParam p = false → db'.relations.get? p = db.relations.get? p
  params : db'.params = db.params
  /-- The marks of parameters are as they were. -/
  marks : db'.marks = db.marks
  schema : db'.schema = db.schema

theorem Nonneg.preserves (h : db.Nonneg) : db.Preserves db where
  nonneg := h
  shape _ m _ hm := ⟨m, hm, rfl, rfl⟩
  other _ _ := rfl
  params := rfl
  marks := rfl
  schema := rfl

theorem putParam_ok {db' : Database α} {p : Predicate} :
    db.putParam p x = .ok db' ↔
      db.isParam p = true ∧ db' = { db with relations := db.relations.put p x } := by
  unfold putParam
  by_cases hp : db.isParam p = true
  · simp [hp, eq_comm]
  · simp [hp]

/-- What is kept is kept by every further step. -/
theorem Preserves.adjusts {db1 db2 : Database α} (h : db.Preserves db1) (hstep : db1.Adjusts db2) :
    db.Preserves db2 := by
  obtain ⟨p, x, y, hx, hxy, hput⟩ := hstep
  obtain ⟨hp, rfl⟩ := putParam_ok.1 hput
  have hget (q : Predicate) : (db1.relations.put p y).get? q =
      if p == q then some y else db1.relations.get? q := Dictionary.get?_put _ _ _ _
  have hparam (q : Predicate) : db1.isParam q = db.isParam q := isParam_congr h.marks q
  have hself {m : Matrix α} (hm : db1.relation? p = some m) : x = .matrix m := by
    rw [relation?, hx] at hm
    cases x with
    | matrix m' => exact congrArg Operand.matrix (Option.some.inj hm)
    | datum d => cases hm
  refine ⟨fun q m hq hm => ?_, fun q m hq hm => ?_, fun q hq => ?_, h.params, h.marks, h.schema⟩
  · by_cases hpq : p = q
    · subst hpq
      rw [relation?, hget, BEq.rfl] at hm
      cases y with
      | datum d => cases hm
      | matrix n =>
        obtain rfl := Option.some.inj hm
        cases x with
        | datum d => exact hxy
        | matrix m' => exact hxy.2 (h.nonneg p m' hp (by rw [relation?, hx]; rfl))
    · rw [relation?, hget, beq_false_of_ne hpq] at hm
      exact h.nonneg q m hq hm
  · obtain ⟨m1, hm1, hshape⟩ := h.shape q m hq hm
    by_cases hpq : p = q
    · subst hpq
      obtain rfl := hself hm1
      cases y with
      | datum d => exact hxy.elim
      | matrix n =>
        refine ⟨n, ?_, hxy.1.1.trans hshape.1, hxy.1.2.trans hshape.2⟩
        rw [relation?, hget, BEq.rfl]
        rfl
    · refine ⟨m1, ?_, hshape⟩
      rw [relation?, hget, beq_false_of_ne hpq]
      exact hm1
  · have hpq : p ≠ q := by
      rintro rfl
      rw [hparam, hq] at hp
      cases hp
    rw [hget, beq_false_of_ne hpq]
    exact h.other q hq

end Database

/-- One parameter is adjusted, and the database is recorded. -/
def Model.Step (a b : Option (Database α) × Array (Database α)) : Prop :=
  ∃ db db', a.1 = some db ∧ db.Adjusts db' ∧ b = (some db', a.2.push db')

/-- One database becomes another by steps, all of which are recorded. -/
def Model.Course (m m' : Model α) : Prop :=
  Relation.ReflTransGen Step (m.database, m.passed) (m'.database, m'.passed)

namespace Model

instance : Std.Refl (Model.Course (α := α)) := ⟨fun _ => .refl⟩

instance : IsTrans (Model α) Model.Course := ⟨fun _ _ _ => .trans⟩

/-- The databases that a course goes through are the ones that it records. -/
theorem Course.exists_databases {m m' : Model α} (h : m.Course m') (hdb : m.database = some db)
    (hnonneg : db.Nonneg) :
    ∃ course : List (Database α), m'.passed.toList = m.passed.toList ++ course ∧
      m'.database = some (course.getLastD db) ∧
      List.IsChain Database.Replaces (db :: course) ∧ ∀ db' ∈ course, db.Preserves db' := by
  rw [Course, hdb] at h
  suffices key : ∃ course : List (Database α), m'.passed.toList = m.passed.toList ++ course ∧
      m'.database = some (course.getLastD db) ∧
      List.IsChain Database.Replaces (db :: course) ∧ ∀ db' ∈ db :: course, db.Preserves db' by
    obtain ⟨course, hpassed, hlast, hchain, hall⟩ := key
    exact ⟨course, hpassed, hlast, hchain, fun db' h => hall db' (mem_cons_of_mem _ h)⟩
  change ∃ course : List (Database α), (m'.database, m'.passed).2.toList = _ ∧
    (m'.database, m'.passed).1 = _ ∧ _
  generalize (m'.database, m'.passed) = target at h ⊢
  induction h with
  | refl => exact ⟨[], by simp, rfl, .singleton db, by simpa using hnonneg.preserves⟩
  | tail _ hstep ih =>
    obtain ⟨course, hpassed, hlast, hchain, hall⟩ := ih
    obtain ⟨db1, db2, hdb1, hadjusts, rfl⟩ := hstep
    obtain rfl := Option.mem_unique hlast hdb1
    have hmem : course.getLastD db ∈ db :: course := getLastD_mem_cons
    refine ⟨course ++ [db2], by simp [hpassed], by simp, ?_, ?_⟩
    · rw [← cons_append, isChain_append]
      refine ⟨hchain, .singleton _, fun a ha b hb => ?_⟩
      obtain ⟨p, x, y, -, -, hput⟩ := hadjusts
      rw [head?_cons, Option.mem_some_iff] at hb
      rw [getLast?_cons, Option.mem_some_iff, ← getLastD_eq_getLast?] at ha
      exact ⟨p, y, by rw [← ha, ← hb]; exact hput⟩
    · intro db' h
      rw [← cons_append, mem_append, mem_singleton] at h
      rcases h with h | rfl
      · exact hall db' h
      · exact (hall _ hmem).adjusts hadjusts

end Model

namespace Run

variable {β γ : Type}

omit [ExactScalar α] in
theorem ending_database_bind (f : Database α → Modelling α β) (t : World α × Model α) :
    ending ((database >>= f) t) = match t.2.database with
      | some db => ending (f db t)
      | none => t := by
  obtain ⟨w, program, db⟩ := t
  cases db <;> rfl

omit [ExactScalar α] in
theorem ending_lift_bind (x : Except Error γ) (f : γ → Modelling α β) (t : World α × Model α) :
    ending ((lift x >>= f) t) = match x with
      | .ok c => ending (f c t)
      | .error _ => t := by
  cases x <;> rfl

/-- A parameter is replaced by something that may be put in its place. -/
theorem leaves_replace (p : Predicate) {f : Operand α → Except Error γ} {k : γ → Operand α}
    (hf : ∀ x c, f x = .ok c → x.Adjusted (k c)) {rest : Unit → Modelling α β}
    (hrest : ∀ u, Leaves Model.Course (rest u)) : Leaves Model.Course (do
      let x ← lift ((← database).paramOperand p)
      let c ← lift (f x)
      let u ← stepParam p (k c)
      rest u) := by
  intro t
  rw [ending_database_bind]
  cases hdb : t.2.database with
  | none => exact refl_of _ _
  | some db =>
    simp only [ending_lift_bind]
    cases hx : db.paramOperand p with
    | error e => exact refl_of _ _
    | ok x =>
      cases hc : f x with
      | error e => simpa [hc] using refl_of Model.Course t.2
      | ok c =>
        simp only [hc]
        have hget := Database.paramOperand_ok.1 hx
        set db' : Database α := { db with relations := db.relations.put p (k c) }
        have hput : db.putParam p (k c) = .ok db' := Database.putParam_ok.2 ⟨hget.1, rfl⟩
        set m' : Model α := { t.2 with database := some db', passed := t.2.passed.push db' }
        have hrun : stepParam p (k c) t = .ok () (t.1, m') := stepParam_run hdb hput
        have hstep : t.2.Course m' :=
          .single ⟨db, db', hdb, ⟨p, x, k c, hget.2, hf x c hc, hput⟩, rfl⟩
        rw [bind_of_ok hrun]
        exact trans_of Model.Course hstep (hrest () (t.1, m'))

theorem leaves_database : Leaves Model.Course (database : Modelling α _) := by
  intro t
  rw [← bind_pure database, ending_database_bind]
  cases t.2.database <;> exact refl_of _ _

theorem leaves_onProgram (act : Run α Program β) : Leaves Model.Course (onProgram act) :=
  leaves_focus act fun _ _ => .refl

theorem leaves_regularize {r : Regularizer α} (hr : r.Shrinks) : Leaves Model.Course (regularize r) := by
  cases r with
  | none => exact leaves_pure
  | undefined => exact hr.elim
  | unable kind => exact hr.elim
  | shrink share =>
    obtain ⟨c, hc, -, hle⟩ := hr
    refine leaves_database.bind fun db => (leaves_forIn fun mark _ => ?_).bind_pure
    refine leaves_lift.bind fun p => ?_
    exact leaves_replace p (fun x y h => Operand.adjusted_scaled hc hle h) fun _ => leaves_pure

theorem leaves_moveParams (g : Gradients α) (rate : Amount α) :
    Leaves Model.Course (moveParams g rate) := by
  refine (leaves_forIn fun e _ => ?_).bind_pure
  exact leaves_replace e.1 (fun x m h => Operand.adjusted_moved h) fun _ => leaves_pure

theorem leaves_applyUpdate (g : Gradients α) (rate : Amount α) :
    Leaves Model.Course (applyUpdate g rate) :=
  (leaves_within g fitGradients).bind fun r => leaves_moveParams r.2 rate

theorem leaves_queryPlan (mode : Mode) : Leaves Model.Course (queryPlan mode : Modelling α Plan) :=
  leaves_state.bind fun _ => leaves_onProgram _

theorem leaves_evaluatePlan (plan : Plan) (inputs : List (Matrix α)) :
    Leaves Model.Course (evaluatePlan plan inputs) :=
  leaves_database.bind fun db => leaves_within {} (plan.eval db inputs)

theorem leaves_regularizationCost (r : Regularizer α) :
    Leaves Model.Course (regularizationCost r) := by
  cases r with
  | none => exact leaves_pure
  | undefined => exact leaves_refuse
  | unable kind => exact leaves_fail
  | shrink share =>
    refine leaves_database.bind fun db => ?_
    split
    · exact leaves_lift
    · refine (leaves_foldlM fun sum mark => ?_).bind fun cost => leaves_lift.bind_pure
      exact leaves_lift.bind fun _ => leaves_lift.bind fun _ => leaves_lift.bind_pure

theorem leaves_lossFigures (l : Learner α) (labels predictions : Matrix α) :
    Leaves Model.Course (lossFigures l labels predictions) := by
  refine leaves_lift.bind fun _ => (leaves_regularizationCost _).bind fun cost => ?_
  split
  · exact leaves_pure
  · exact leaves_fail

theorem leaves_figures (l : Learner α) (labels predictions : Matrix α) (moment : Moment α) :
    Leaves Model.Course (figures l labels predictions moment) := by
  unfold figures
  have hloss := leaves_lossFigures l labels predictions
  split
  · exact leaves_pure
  · exact leaves_fail
  · exact leaves_lift.bind fun _ => leaves_lift.bind_pure
  · exact leaves_lift.bind fun _ => hloss.bind fun _ => leaves_lift.bind_pure
  · exact leaves_lift.bind fun _ => hloss.bind fun _ => leaves_lift.bind_pure
  · exact leaves_lift.bind fun _ => hloss.bind fun _ => leaves_lift.bind fun _ =>
      leaves_lift.bind_pure

theorem leaves_report (l : Learner α) (labels predictions : Matrix α) (moment : Moment α)
    (g : Gradients α) : Leaves Model.Course (report l labels predictions moment g) := by
  refine (leaves_figures l labels predictions moment).bind fun found => leaves_lift.bind fun _ => ?_
  split
  · exact leaves_pure
  · exact leaves_pure
  · exact leaves_say.bind_pure

theorem leaves_lossGradients (l : Learner α) (mode : Mode) (x : Matrix α) (y : Operand α)
    (moment : Moment α) : Leaves Model.Course (lossGradients l mode x y moment) := by
  refine Leaves.bind ?_ fun _ => leaves_pure
  refine (leaves_queryPlan mode).bind fun plan => ?_
  split
  · refine (leaves_evaluatePlan _ _).bind fun _ => leaves_database.bind fun db => ?_
    refine leaves_lift.bind fun delta => (leaves_within _ _).bind fun _ => ?_
    exact leaves_lift.bind fun _ => (leaves_report _ _ _ _ _).bind_pure
  · exact leaves_refuse

theorem leaves_shareParams (l : Learner α) : Leaves Model.Course (shareParams l) := by
  refine leaves_database.bind fun db => (leaves_forIn fun mark _ => ?_).bind fun _ => ?_
  · exact leaves_lift.bind_pure
  · split
    · split
      · exact leaves_fail
      · exact leaves_pure
    · exact leaves_pure

theorem leaves_reportEpoch {σ : Type} {S : σ → σ → Prop} [Std.Refl S] [IsTrans σ S] (l : Learner α)
    (epoch : ℕ) (c : Counter α) : Leaves S (reportEpoch l epoch c) := by
  unfold reportEpoch
  split
  · exact leaves_pure
  · exact leaves_fail
  · exact leaves_lift.bind fun _ => leaves_lift.bind fun _ => leaves_say

/-- The model goes its course, whatever becomes of the examples. -/
def TrainingCourse (s s' : Model α × Examples α) : Prop := s.1.Course s'.1

instance : Std.Refl (TrainingCourse (α := α)) := ⟨fun _ => .refl⟩

instance : IsTrans (Model α × Examples α) TrainingCourse := ⟨fun _ _ _ => .trans⟩

theorem Leaves.onModel {act : Modelling α β} (h : Leaves Model.Course act) :
    Leaves TrainingCourse (onModel act) :=
  h.focus fun _ _ hs => hs

theorem leaves_epochBatches (l : Learner α) : Leaves TrainingCourse (epochBatches l) :=
  leaves_focus _ fun _ _ => .refl

omit [ExactScalar α] in
theorem leaves_epochList {σ : Type} {S : σ → σ → Prop} [Std.Refl S] [IsTrans σ S] (l : Learner α) :
    Leaves S (epochList l) :=
  leaves_lift.bind_pure

variable {l : Learner α}

theorem leaves_learnBatch (hr : l.regularizer.Shrinks) (mode : Mode) (x : Matrix α)
    (y : Except Error (Operand α)) (moment : Moment α) (shown : String) (merged : Counter α) :
    Leaves TrainingCourse (learnBatch l mode x y moment shown merged) := by
  refine Leaves.tryCatch (Leaves.onModel ?_) fun e => leaves_say.bind fun _ => leaves_fail
  refine leaves_lift.bind fun y => (leaves_lossGradients l mode x y moment).bind fun g => ?_
  exact (leaves_regularize hr).bind fun _ => (leaves_applyUpdate g l.rate).bind fun _ => leaves_lift

theorem leaves_trainByMode (hr : l.regularizer.Shrinks) : Leaves TrainingCourse (trainByMode l) := by
  refine (leaves_epochList l).bind fun epochs => (leaves_forIn fun i _ => ?_).bind_pure
  refine leaves_state.bind fun s => (leaves_foldlM fun merged mode => ?_).bind fun merged =>
    (leaves_reportEpoch l i merged).bind_pure
  exact leaves_lift.bind fun x => leaves_learnBatch hr mode x _ _ _ merged

theorem leaves_trainByBatch (hr : l.regularizer.Shrinks) :
    Leaves TrainingCourse (trainByBatch l) := by
  refine (leaves_epochList l).bind fun epochs => (leaves_forIn fun i _ => ?_).bind_pure
  refine (leaves_epochBatches l).bind fun bs => (leaves_foldlM fun merged b => ?_).bind
    fun merged => (leaves_reportEpoch l i merged).bind_pure
  exact leaves_lift.bind fun b => leaves_learnBatch hr b.mode b.inputs _ _ _ merged

theorem leaves_epochGradients (l : Learner α) (epoch : ℕ) :
    Leaves TrainingCourse (epochGradients l epoch) := by
  refine (leaves_epochBatches l).bind fun bs => leaves_lift.bind fun bs => leaves_mapM fun b => ?_
  exact (leaves_lossGradients l _ _ _ _).onModel.bind_pure

theorem leaves_applyEpoch (hr : l.regularizer.Shrinks) (found : List (ℕ × Gradients α)) (total : ℕ) :
    Leaves Model.Course (applyEpoch l found total) := by
  refine (leaves_regularize hr).bind fun _ => (leaves_forIn fun ⟨n, g⟩ _ => ?_).bind_pure
  dsimp only
  split
  · exact leaves_fail.bind fun _ => leaves_lift.bind fun _ => (leaves_applyUpdate _ _).bind_pure
  · exact leaves_lift.bind fun _ => (leaves_applyUpdate _ _).bind_pure

theorem leaves_trainParallel (hr : l.regularizer.Shrinks) :
    Leaves TrainingCourse (trainParallel l) := by
  refine (leaves_epochList l).bind fun epochs => (leaves_forIn fun i _ => ?_).bind_pure
  refine (leaves_epochGradients l i).bind fun found => ?_
  refine (Leaves.onModel ((leaves_applyEpoch hr found _).bind fun _ => leaves_shareParams l)).bind
    fun _ => ?_
  exact leaves_lift.bind fun c => (leaves_reportEpoch l i c).bind_pure

end Run

/-- Training goes through databases that differ from the first one at most in the entries of
parameters, of which none is negative, and puts one parameter at a time. This holds of every
database that the run records, however examples are shuffled and however the run ends. -/
theorem train_preserves_params {l : Learner α}
    (hmethod : l.method = .batch ∨ l.method = .stochastic ∨ l.method = .parallel)
    (hregular : l.regularizer.Shrinks) {t : World α × (Model α × Examples α)} {db : Database α}
    (hdb : t.2.1.database = some db) (hnonneg : db.Nonneg) :
    ∃ course : List (Database α),
      (ending (train l t)).2.1.passed.toList = t.2.1.passed.toList ++ course ∧
      (ending (train l t)).2.1.database = some (course.getLastD db) ∧
      List.IsChain Database.Replaces (db :: course) ∧ ∀ db' ∈ course, db.Preserves db' := by
  have hleaves : Leaves TrainingCourse (train l) := by
    unfold train
    rcases hmethod with h | h | h
    · rw [h]
      exact leaves_trainByMode hregular
    · rw [h]
      exact leaves_trainByBatch hregular
    · rw [h]
      exact leaves_trainParallel hregular
  exact Model.Course.exists_databases (hleaves t) hdb hnonneg

namespace Sample

/-- Goes through the examples twice, one by one, and halves all weights each time. -/
def shrinking : Learner ℚ :=
  { learner with method := .stochastic, epochs := .whole 2, regularizer := .shrink (.number (1 / 2)) }

/-- A model that answers questions about paths, and a path. -/
def lesson : Model ℚ × Examples ℚ :=
  ({ program := normalized, database := some learned },
    .ofMode ends ⟨3, #[[(1, 1)], [(2, 1)]]⟩ ⟨3, #[[(2, 1)], [(1, 1)]]⟩)

/-- A world in which shuffling leaves everything in place. -/
def straight : World ℚ := { Sample.world with shufflings := fun _ => ⟨fun _ => id, id⟩ }

theorem nonneg_learned : learned.Nonneg := by
  intro p m hp hm
  obtain ⟨x, hx, hxm⟩ := Option.bind_eq_some_iff.1 hm
  have hmem := Dictionary.mem_of_lookup hx
  obtain rfl : edges = m := by
    rcases mem_pair.1 hmem with h | h
    · obtain ⟨rfl, rfl⟩ := Prod.mk.inj h
      exact Option.some.inj hxm
    · obtain ⟨rfl, -⟩ := Prod.mk.inj h
      exact absurd hp (by decide +kernel)
  intro i j
  rw [Matrix.entry_eq]
  refine Matrix.rowEntry_nonneg (fun e he => ?_) j
  obtain ⟨r, hr, he⟩ : ∃ r ∈ edges.rows.toList, e ∈ r := by
    unfold Matrix.row at he
    cases hrow : edges.rows[i]? with
    | none => simp [hrow] at he
    | some r => exact ⟨r, Array.mem_toList_iff.2 (Array.mem_of_getElem? hrow), by simpa [hrow] using he⟩
  have hstored : ∀ r ∈ edges.rows.toList, ∀ e ∈ r, 0 ≤ e.2 := by decide +kernel
  exact hstored r hr e he

end Sample

open Sample in
/-- Two rounds over a path, with weights that are halved each time. -/
theorem train_preserves_params_shrinking : ∃ course : List (Database ℚ),
    (ending (train shrinking (straight, lesson))).2.1.passed.toList = course ∧
      (ending (train shrinking (straight, lesson))).2.1.database = some (course.getLastD learned) ∧
      List.IsChain Database.Replaces (learned :: course) ∧ ∀ db' ∈ course, learned.Preserves db' :=
  train_preserves_params (l := shrinking) (t := (straight, lesson)) (.inr (.inl rfl))
    (show Regularizer.Shrinks (.shrink (.number (1 / 2))) from
      ⟨1 / 2, rfl, by norm_num, by norm_num⟩) rfl nonneg_learned

end BeliefLogic
