import BeliefLogic.Proofs.Program.Queries

/-!
# Weights of programs

A rule sums the products of the weights of its goals over all assignments, a relation sums over its
rules, and calls have no weight beyond the greatest depth. Plans compute these weights.
-/

namespace BeliefLogic

open Outcome Run List Plan

variable {P : Rule → Plan → Prop} {rules : List Rule}

def Goal.IsPlainlyNamed (g : Goal) : Prop := '(' ∉ g.functor.toList

/-- Two directions with a comma between them are read in one way. -/
theorem Mode.directions_inj {a b a' b' : String} (ha' : a' = "i" ∨ a' = "o")
    (hb' : b' = "i" ∨ b' = "o")
    (h : a.toList ++ ',' :: b.toList = a'.toList ++ ',' :: b'.toList) : a = a' ∧ b = b' := by
  have hcomma : ',' ∉ a'.toList ∧ ',' ∉ b'.toList := by
    rcases ha' with rfl | rfl <;> rcases hb' with rfl | rfl <;> decide
  have hcount := congrArg (count ',') h
  rw [count_append, count_append, count_cons_self, count_cons_self, count_eq_zero.2 hcomma.1,
    count_eq_zero.2 hcomma.2] at hcount
  have ha : ',' ∉ a.toList := count_eq_zero.1 (by omega)
  obtain ⟨hleft, hright⟩ := append_cons_inj (.inl ⟨ha, hcomma.1⟩) h
  exact ⟨String.toList_inj.1 hleft, String.toList_inj.1 hright⟩

/-- Two modes of two arguments with one text are the same. -/
theorem Mode.eq_of_key_eq {m m' : Mode} (hkey : m.key = m'.key) (hm : m.arity = 2)
    (hm' : m'.arity = 2) (hargs : ∀ a ∈ m'.args, a = "i" ∨ a = "o") (hplain : m.goal.IsPlainlyNamed)
    (hplain' : m'.goal.IsPlainlyNamed) : m = m' := by
  obtain ⟨⟨f, args⟩⟩ := m
  obtain ⟨⟨f', args'⟩⟩ := m'
  obtain ⟨a, b, rfl⟩ := length_eq_two.1 hm
  obtain ⟨a', b', rfl⟩ := length_eq_two.1 hm'
  have hkey : f ++ "(" ++ (a ++ "," ++ b) ++ ")" = f' ++ "(" ++ (a' ++ "," ++ b') ++ ")" := hkey
  have hlist : f.toList ++ '(' :: (a.toList ++ ',' :: b.toList ++ [')']) =
      f'.toList ++ '(' :: (a'.toList ++ ',' :: b'.toList ++ [')']) := by
    simpa using congrArg String.toList hkey
  obtain ⟨hf, hrest⟩ := append_cons_inj (.inl ⟨hplain, hplain'⟩) hlist
  obtain ⟨rfl, rfl⟩ := Mode.directions_inj (hargs a' (by simp [Mode.args]))
    (hargs b' (by simp [Mode.args])) (append_cancel_right hrest)
  have hf : f = f' := String.toList_inj.1 hf
  rw [hf]

section

variable {α : Type} [ExactScalar α] {mode : Mode} {m x : Matrix α} {r : Rule} {d : ℤ} {plan : Plan}

/-- The weight that rules give to two entities, with calls so many levels deep. -/
def Program.derivedWeight (p : Program) (db : Database α) (n : ℕ) : ℕ → String → ℕ → ℕ → α
  | 0, _, _, _ => 0
  | k + 1, f, a, b => (((p.rulesFor? (.inputOutput f)).getD []).map fun r => r.weight db n
      (fun g => if p.defines (.inputOutput g) then some (p.derivedWeight db n k g) else none) a b).sum

/-- The weights of defined relations, with calls so many levels deep. -/
def Program.derived (p : Program) (db : Database α) (n k : ℕ) (f : String) : Option (ℕ → ℕ → α) :=
  if p.defines (.inputOutput f) then some (p.derivedWeight db n k f) else none

theorem Program.derivedWeight_succ (p : Program) (db : Database α) (n k : ℕ) (f : String)
    (a b : ℕ) : p.derivedWeight db n (k + 1) f a b =
      (((p.rulesFor? (.inputOutput f)).getD []).map fun r => r.weight db n (p.derived db n k) a b).sum :=
  rfl

def levelsLeft (greatest d : ℤ) : ℕ := (greatest + 1 - d).toNat

theorem levelsLeft_of_le {greatest : ℤ} (h : d ≤ greatest) :
    levelsLeft greatest d = levelsLeft greatest (d + 1) + 1 := by
  unfold levelsLeft
  omega

theorem levelsLeft_of_lt {greatest : ℤ} (h : greatest < d) : levelsLeft greatest d = 0 := by
  unfold levelsLeft
  omega

/-- A program that gives weights to pairs: called relations have two arguments and are either stored
or defined, nothing is defined outside, and constants are assigned as they are meant. -/
structure Program.Weighs (p : Program) (db : Database α) : Prop where
  filed : p.theory.Filed
  plugins : ∀ m, p.plugins.has m = false
  named : ∀ r ∈ p.theory.rules, ∀ head, r.head = some head → head.IsPlainlyNamed
  binary : ∀ r ∈ p.theory.rules, ∀ g ∈ r.body, p.definesGoal g = true → g.arity = 2
  assigned : ∀ r ∈ p.theory.rules, ∀ g ∈ r.body, g.WellAssigned
  apart : ∀ g, p.definesGoal g = true → ¬db.Stores ⟨g.functor, g.arity⟩

/-- Rules that are called have both variables of their head in the body. -/
def Program.CallsRestricted (p : Program) : Prop :=
  ∀ r ∈ p.theory.rules, ∀ g ∈ r.body, p.definesGoal g = true →
    ∀ r' ∈ (p.rulesFor? ⟨g⟩).getD [], ∀ head, r'.head = some head →
      ∀ v ∈ head.args, v ∈ Goal.variablesOf r'.body

def Program.Calls (p : Program) (f : String) : Prop :=
  ∃ r ∈ p.theory.rules, ∃ g ∈ r.body, p.definesGoal g = true ∧ g.functor = f

/-- A plan for calls carries the weights that are left at its depth. -/
def Program.CallWeighs (p : Program) (s : Settings α) (db : Database α) (n : ℕ) (greatest : ℤ)
    (m : Mode) (d : ℤ) (q : Plan) : Prop :=
  ∀ m' : Mode, m.key = m'.key → m'.arity = 2 → (∀ a ∈ m'.args, a = "i" ∨ a = "o") →
    p.Calls m'.functor → q.isDistinct = true →
      q.Carries s db n (Circuit.carriedBy (p.derived db n (levelsLeft greatest d)) m')

variable {s : Settings α} {db : Database α} {n : ℕ} {p : Program} {greatest : ℤ}

namespace Program

theorem rulesFor?_of_arity {g : Goal} (hg : g.arity = 2) :
    p.rulesFor? ⟨g⟩ = p.rulesFor? (.inputOutput g.functor) := by
  have hkey : g.key = (Mode.inputOutput g.functor).goal.key := by
    rw [Goal.key, hg]
    rfl
  rw [rulesFor?, rulesFor?, hkey]

omit [ExactScalar α] in
theorem isPlainlyNamed_of_rulesFor (hp : p.Weighs db) (hr : r ∈ (p.rulesFor? mode).getD []) :
    mode.goal.IsPlainlyNamed := by
  obtain ⟨head, hhead, hf, -⟩ := head_of_rulesFor hp.filed hr
  have := hp.named r (mem_rules_of_rulesFor hr) head hhead
  rwa [Goal.IsPlainlyNamed, hf] at this

/-- The weights at any depth interpret the rules. -/
theorem Weighs.interprets (hp : p.Weighs db) (k : ℕ) (hr : r ∈ p.theory.rules) :
    p.Interprets db (p.derived db n k) r.body where
  plugins := hp.plugins
  assigned g hg := hp.assigned r hr g hg
  binary g hg := hp.binary r hr g hg
  rules g _ ha := by
    have : p.definesGoal g = p.defines (.inputOutput g.functor) := by
      simp [definesGoal, defines, rulesFor?_of_arity ha]
    rw [derived]
    split <;> simp_all
  apart g _ hg := hp.apart g hg

end Program

/-- What a planned rule computes from a row. -/
theorem RulePlanned.carries (hp : p.Weighs db) (hdb : db.Regular n) (hr : r ∈ p.theory.rules)
    (h : RulePlanned p (p.CallWeighs s db n greatest) mode d r plan)
    (hdist : plan.isDistinct = true) (hx : x.Shaped 1 n) (hm : plan.result s db [x] = .ok m) :
    r.Carries db n (p.derived db n (levelsLeft greatest (d + 1))) mode x m :=
  h.value hdb (hp.interprets _ hr)
    (fun g hg hdef m _ hf ha hargs hq hq' => hq m rfl ha hargs ⟨r, hr, g, hg, hdef, hf.symm⟩ hq')
    hdist hx hm

/-- If the plan of a mode has a result, then so has the plan of a rule. -/
theorem OfRules.exists_result (hdb : db.Regular n) (h : OfRules P rules plan)
    (hdist : plan.isDistinct = true) (hm : plan.result s db [x] = .ok m) :
    ∃ r ∈ rules, ∃ q, P r q ∧ q.isDistinct = true ∧ ∃ m', q.result s db [x] = .ok m' := by
  cases h with
  | one hplan => exact ⟨_, mem_singleton_self _, plan, hplan, hdist, m, hm⟩
  | @many r _ _ _ hall =>
    obtain ⟨y, ys, hresults, -⟩ := result_of_sumOf hdb hm
    obtain ⟨q, hq, hplan⟩ := exists_of_forall₂ hall r mem_cons_self
    obtain ⟨m', -, hm'⟩ := exists_of_forall₂ hresults q hq
    exact ⟨r, mem_cons_self, q, hplan, isDistinct_of_sumOf hdist q hq, m', hm'⟩

/-- The plan of a mode sums the results of its rules. -/
theorem OfRules.entry (hdb : db.Regular n) (h : OfRules P rules plan) {f : Rule → ℕ → α}
    (hP : ∀ r ∈ rules, ∀ q, P r q → q.isDistinct = true → ∀ m, q.result s db [x] = .ok m →
      m.Shaped 1 n ∧ ∀ k < n, m.entry 0 k = f r k) (hdist : plan.isDistinct = true)
    (hm : plan.result s db [x] = .ok m) :
    m.Shaped 1 n ∧ ∀ k < n, m.entry 0 k = (rules.map fun r => f r k).sum := by
  cases h with
  | one hplan =>
    obtain ⟨hs, he⟩ := hP _ (mem_singleton_self _) _ hplan hdist m hm
    exact ⟨hs, fun k hk => by simpa using he k hk⟩
  | @many r r' rules plans hall =>
    obtain ⟨y, ys, hresults, hfold⟩ := result_of_sumOf hdb hm
    -- Each addend computes what its rule gives.
    have hparts : Forall₂ (fun m r => m.Shaped 1 n ∧ ∀ k < n, m.entry 0 k = f r k) (y :: ys)
        (r :: r' :: rules) :=
      (forall₂_comp_mem hall hresults fun r hr q hq m hplan hm =>
        hP r hr q hplan (isDistinct_of_sumOf hdist q hq) m hm).flip
    obtain ⟨hy, hys⟩ := forall_mem_cons.1 ((forall₂_and_left _ _).1 hparts).1
    obtain ⟨m', hm', hs, he⟩ := Matrix.exists_foldlM_add ys hy hys
    rw [ok_unique hfold hm']
    refine ⟨hs, fun k hk => ?_⟩
    have hmap : (y :: ys).map (fun m => m.entry 0 k) = (r :: r' :: rules).map fun r => f r k := by
      rw [← forall₂_eq_eq_eq, forall₂_map_left_iff, forall₂_map_right_iff]
      exact hparts.imp fun _ _ h => h.2 k hk
    rw [he, ← hmap, map_cons, sum_cons]

theorem Plan.eq_empty_of_null (hdb : db.Regular n) {i : PlanInfo} (hx : x.Shaped 1 n)
    (hm : (Plan.null i mode).result s db [x] = .ok m) : m = .empty 1 n := by
  have hm : db.zeros x.height i.outputType = .ok m := hm
  rw [hdb.zeros_eq, hx.height_eq] at hm
  exact (Except.ok.inj hm).symm

namespace Program

theorem isForward_eq (ha : mode.arity = 2) (hargs : ∀ a ∈ mode.args, a = "i" ∨ a = "o")
    (hone : mode.isInput 1 = !mode.isInput 0) : Database.isForward mode = mode.isInput 0 := by
  obtain ⟨⟨f, args⟩⟩ := mode
  obtain ⟨a, b, rfl⟩ := length_eq_two.1 ha
  rcases hargs a (by simp [Mode.args]) with rfl | rfl <;>
  all_goals simp_all [Database.isForward, Mode.isInput, Mode.isOutput, Mode.args]

/-- Beyond the greatest depth nothing has a weight. -/
theorem carriedBy_derived_zero (m : Mode) (i k : ℕ) :
    Circuit.carriedBy (p.derived db n 0) m i k = 0 := by
  unfold Circuit.carriedBy derived
  split
  · next h =>
    split at h
    · obtain rfl := Option.some.inj h
      simp [derivedWeight]
    · cases h
  · rfl

/-- The weights that are left at a depth, from the rules of a mode. -/
theorem carriedBy_derived_succ {m : Mode} (ha : m.arity = 2)
    (hargs : ∀ a ∈ m.args, a = "i" ∨ a = "o") (hone : m.isInput 1 = !m.isInput 0)
    (hrules : (p.rulesFor? m).getD [] ≠ []) (j i k : ℕ) :
    Circuit.carriedBy (p.derived db n (j + 1)) m i k =
      (((p.rulesFor? m).getD []).map fun r => r.carried db n (p.derived db n j) m i k).sum := by
  have hsame : p.rulesFor? m = p.rulesFor? (.inputOutput m.functor) := rulesFor?_of_arity ha
  have hdef : p.defines (.inputOutput m.functor) = true := by
    rw [defines, ← hsame]
    exact decide_eq_true hrules
  rw [Circuit.carriedBy, derived, if_pos hdef]
  simp only [isForward_eq ha hargs hone, derivedWeight_succ, ← hsame, Rule.carried]
  cases m.isInput 0 <;> rfl

theorem sum_map_carried (rules : List Rule) (x : ℕ → α) (w : Rule → ℕ → α) (n : ℕ) :
    (rules.map fun r => ∑ a ∈ Finset.range n, x a * w r a).sum =
      ∑ a ∈ Finset.range n, x a * (rules.map fun r => w r a).sum := by
  induction rules with
  | nil => simp
  | cons r rules ih => simp [ih, mul_add, Finset.sum_add_distrib]

theorem Weighs.grants (hp : p.Weighs db) (hcalls : p.CallsRestricted) (hdb : db.Regular n)
    (hdepth : p.maxDepth = .upTo greatest) : p.Grants (p.CallWeighs s db n greatest) where
  null mode d hd m' _ _ _ _ _ x m hx hm := by
    have hd : greatest < d := by simpa [hdepth, Depth.isExceededBy] using hd
    rw [eq_empty_of_null hdb hx hm, levelsLeft_of_lt hd]
    exact ⟨Matrix.shaped_empty 1 n, fun k _ => by simp [carriedBy_derived_zero]⟩
  made mode d plan hd h m' hkey ha hargs hcalled hdist x m hx hm := by
    have hd : d ≤ greatest := by simpa [hdepth, Depth.isExceededBy] using hd
    obtain ⟨r, hr, q, hq, hqdist, y, hy⟩ := h.exists_result hdb hdist hm
    obtain ⟨hone, ⟨head, hhead, hbinary⟩, -⟩ := hq.carries hp hdb (mem_rules_of_rulesFor hr) hqdist
      hx hy
    obtain ⟨r1, hr1, g, hg, hdef, hf⟩ := hcalled
    -- The mode is the one that is asked for, since names have no brackets.
    have hg2 : g.arity = 2 := hp.binary r1 hr1 g hg hdef
    obtain rfl : mode = m' := by
      obtain ⟨head', hhead', -, ha'⟩ := head_of_rulesFor hp.filed hr
      obtain rfl := Option.mem_unique hhead hhead'
      refine Mode.eq_of_key_eq hkey (ha'.symm.trans hbinary) ha hargs
        (isPlainlyNamed_of_rulesFor hp hr) ?_
      obtain ⟨r2, hr2⟩ := exists_mem_of_ne_nil _ (of_decide_eq_true hdef)
      have := isPlainlyNamed_of_rulesFor hp hr2
      change '(' ∉ m'.functor.toList
      rwa [← hf]
    have hsame : p.rulesFor? mode = p.rulesFor? ⟨g⟩ := by
      rw [rulesFor?_of_arity hg2, hf]
      exact rulesFor?_of_arity ha
    have hentry := h.entry hdb (fun r hr q hq hqdist m hm => by
      have hcarries := hq.carries hp hdb (mem_rules_of_rulesFor hr) hqdist hx hm
      exact ⟨hcarries.shaped, hcarries.entry (hcalls r1 hr1 g hg hdef r (hsame ▸ hr))⟩) hdist hm
    refine ⟨hentry.1, fun k hk => ?_⟩
    rw [hentry.2 k hk, levelsLeft_of_le hd]
    simp only [carriedBy_derived_succ ha hargs hone (ne_nil_of_mem hr)]
    exact sum_map_carried _ _ _ n
  key mode mode' d plan hkey h m' hkey' := h m' (hkey.trans hkey')

end Program

/-- The plan of a query on the row of an entity, where rules of called relations have their head
variables in the body: the weight of a number is that of the query for the entity and the number,
with calls to the greatest depth. -/
theorem queryPlan_entry_eq_derivedWeight (hdb : db.Regular n) {p' : Program} (hfresh : p.plans = {})
    (hp : p.Weighs db) (hcalls : p.CallsRestricted) (hnorm : p.normalization = .identity)
    (hdepth : p.maxDepth = .upTo greatest) {schema : Option Schema} {mode : Mode}
    (hmode : mode.args = ["i", "o"] ∨ mode.args = ["o", "i"]) {w w' : World α} {plan : Plan}
    (hplan : compile schema mode (w, p) = .ok plan (w', p')) (hdistinct : plan.isDistinct = true)
    {symbol : String} {type : Option String} {input output : Matrix α}
    (hinput : db.oneHot symbol type = .ok input) {t t' : World α × Scratch α}
    (heval : Plan.eval db [input] plan t = .ok output t') :
    ∃ a, db.idOf? symbol = some a ∧ output.Shaped 1 n ∧ ∀ b < n, output.entry 0 b =
      if mode.isInput 0 then p.derivedWeight db n (levelsLeft greatest 0) mode.functor a b
      else p.derivedWeight db n (levelsLeft greatest 0) mode.functor b a := by
  have hplanned := compile_ok (hp.grants (s := t.1.settings) hcalls hdb hdepth) hfresh hplan
  have hresult := (eval_ok _ heval).1
  obtain ⟨a, ha, hshape, hone⟩ := hdb.oneHot_ok hinput
  refine ⟨a, ha, ?_⟩
  rcases hplanned with ⟨hex, rfl⟩ | ⟨hex, made, normal, table, hmade, hnormal, rfl⟩
  · have hd : greatest < 0 := by simpa [hdepth, Depth.isExceededBy] using hex
    rw [eq_empty_of_null hdb hshape hresult, levelsLeft_of_lt hd]
    exact ⟨Matrix.shaped_empty 1 n, fun k _ => by simp [Program.derivedWeight]⟩
  · have hd : 0 ≤ greatest := by simpa [hdepth, Depth.isExceededBy] using hex
    obtain rfl : made = normal := by simpa [hnorm, Program.normalize] using hnormal
    have hbare := bare_number false made 1 table
    rw [← isDistinct_bare, hbare, isDistinct_bare] at hdistinct
    have hresult := result_congr hdb hbare hresult
    obtain ⟨hs, he⟩ := hmade.entry hdb (fun r hr q hq hqdist m hm => by
      have hcarries := hq.carries hp hdb (Program.mem_rules_of_rulesFor hr) hqdist hshape hm
      exact ⟨hcarries.shaped, hcarries.oneHot a (hdb.idOf?_lt ha) hone⟩) hdistinct hresult
    refine ⟨hs, fun b hb => ?_⟩
    have ha2 : mode.arity = 2 := by
      change mode.args.length = 2
      rcases hmode with h | h <;> rw [h] <;> rfl
    have hsame : p.rulesFor? mode = p.rulesFor? (.inputOutput mode.functor) :=
      Program.rulesFor?_of_arity ha2
    rw [he b hb, levelsLeft_of_le hd, Program.derivedWeight_succ, Program.derivedWeight_succ, hsame]
    unfold Rule.carried
    cases mode.isInput 0 <;> rfl

end

namespace Sample

def near : Rule where
  head := some ⟨"reach", ["X", "Y"]⟩
  body := [⟨"edge", ["X", "Y"]⟩]

/-- An entity is reached along an edge from one that is reached. -/
def far : Rule where
  head := some ⟨"reach", ["X", "Y"]⟩
  body := [⟨"edge", ["X", "Z"]⟩, ⟨"reach", ["Z", "Y"]⟩]

/-- The entities that are reached, without calls. -/
def recursive : Program where
  theory := { dialect := .clause, groups := [("reach/2", [near, far])] }
  maxDepth := .upTo 0
  normalization := .identity

def reached : Mode := ⟨⟨"reach", ["i", "o"]⟩⟩

theorem mem_recursive {r : Rule} (hr : r ∈ recursive.theory.rules) : r = near ∨ r = far :=
  mem_pair.1 hr

theorem filed_recursive : recursive.theory.Filed := by
  intro e he r hr
  obtain rfl := mem_singleton.1 he
  rcases mem_pair.1 hr with rfl | rfl
  · exact ⟨_, rfl, by decide⟩
  · exact ⟨_, rfl, by decide⟩

theorem functor_of_definesGoal {g : Goal} (hg : recursive.definesGoal g = true) :
    g.functor = "reach" ∧ g.arity = 2 := by
  obtain ⟨r, hr⟩ := exists_mem_of_ne_nil _ (of_decide_eq_true hg)
  obtain ⟨head, hhead, hf, ha⟩ := Program.head_of_rulesFor filed_recursive hr
  rcases mem_recursive (Program.mem_rules_of_rulesFor hr) with rfl | rfl
  · obtain rfl := Option.some.inj hhead
    exact ⟨hf.symm, ha.symm⟩
  · obtain rfl := Option.some.inj hhead
    exact ⟨hf.symm, ha.symm⟩

theorem weighs_recursive : recursive.Weighs database where
  filed := filed_recursive
  plugins _ := rfl
  named r hr head hhead := by
    rcases mem_recursive hr with rfl | rfl
    · obtain rfl := Option.some.inj hhead
      simp [Goal.IsPlainlyNamed]
    · obtain rfl := Option.some.inj hhead
      simp [Goal.IsPlainlyNamed]
  binary _ _ g _ hg := (functor_of_definesGoal hg).2
  assigned r hr g hg := by
    rcases mem_recursive hr with rfl | rfl
    · obtain rfl := mem_singleton.1 hg
      exact fun h => absurd h (by decide)
    · rcases mem_pair.1 hg with rfl | rfl <;> exact fun h => absurd h (by decide)
  apart g hg := by
    obtain ⟨hf, ha⟩ := functor_of_definesGoal hg
    rw [hf]
    change ¬(database.relations.get? ⟨"reach", 2⟩).isSome = true
    decide

theorem callsRestricted_recursive : recursive.CallsRestricted := by
  intro r hr g hg hdef r' hr' head hhead
  rcases mem_recursive (Program.mem_rules_of_rulesFor hr') with rfl | rfl
  · obtain rfl := Option.some.inj hhead
    decide
  · obtain rfl := Option.some.inj hhead
    decide

/-- The entities that are reached, with calls down to a depth of one. -/
def deeper : Program := { recursive with maxDepth := .upTo 1 }

theorem weighs_deeper : deeper.Weighs database :=
  ⟨filed_recursive, weighs_recursive.plugins, weighs_recursive.named, weighs_recursive.binary,
    weighs_recursive.assigned, weighs_recursive.apart⟩

/-- The weight with which the second entity is reached from the first, by a plan with distinct
targets. -/
def weightReached : Option ℚ :=
  match compile (some (.untyped symbols)) reached (world, deeper) with
  | .error _ _ => none
  | .ok plan _ =>
    match Plan.eval database [row] plan (world, {}) with
    | .error _ _ => none
    | .ok output _ => if plan.isDistinct then some (output.entry 0 2) else none

theorem weightReached_eq : weightReached = some 10 := by
  decide +kernel

end Sample

open Sample in
/-- The second entity is reached along one edge, or along two. -/
theorem queryPlan_entry_eq_derivedWeight_reach : ∃ plan t' output u',
    compile (some (.untyped symbols)) reached (world, deeper) = .ok plan t' ∧
      Plan.eval database [row] plan (world, {}) = .ok output u' ∧ output.entry 0 2 = 10 ∧
        ∃ a, database.idOf? "a" = some a ∧ output.Shaped 1 3 ∧
          ∀ b < 3, output.entry 0 b = deeper.derivedWeight database 3 2 "reach" a b := by
  have h := weightReached_eq
  rw [weightReached] at h
  cases hplan : compile (some (.untyped symbols)) reached (world, deeper) with
  | error e t' => simp [hplan] at h
  | ok plan t' =>
    cases heval : Plan.eval database [row] plan (world, {}) with
    | error e u' => simp [hplan, heval] at h
    | ok output u' =>
      simp only [hplan, heval, Option.ite_none_right_eq_some, Option.some.injEq] at h
      exact ⟨plan, t', output, u', rfl, heval, h.2, queryPlan_entry_eq_derivedWeight
        regular_database rfl weighs_deeper callsRestricted_recursive rfl rfl (.inl rfl) hplan h.1
        oneHot_a heval⟩

end BeliefLogic
