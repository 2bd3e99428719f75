import BeliefLogic.Proofs.Plan.Rowwise
import BeliefLogic.Formula.Derivation

/-!
# What formulas mean

A formula means a matrix once its inputs and handles are bound. The formula of a plan means the
result of the plan on a single row.
-/

namespace BeliefLogic

open Outcome Run Bindings List

variable {α : Type} {m : Matrix α} {f : Formulary α} {key : Predicate} {mode : Mode} {s : NameSpace}
  {type : Option String}

/-- Rows of a length for inputs, and matrices for handles. -/
structure Reading (α : Type) where
  size : ℕ
  input : String → ℕ → α
  handle : Predicate → Option (Matrix α)

/-- Inputs with the values that were registered for handles. -/
def Formulary.reading (f : Formulary α) (n : ℕ) (input : String → ℕ → α) : Reading α :=
  ⟨n, input, fun key => (f.handle? key).map Handle.value⟩

section

variable [ExactScalar α]

/-- The entries of the matrix that a formula means. Normalizations and what is defined outside mean
nothing. -/
def Formula.meaning (σ : Reading α) : Formula → Option (ℕ → ℕ → α)
  | .input name _ | .given name => some fun _ k => σ.input name k
  | .handle key _ => (σ.handle key).map Matrix.entry
  | .transpose m => (meaning σ m).map fun f i k => f k i
  | .sum a b => Option.map₂ (fun f g i k => f i k + g i k) (meaning σ a) (meaning σ b)
  | .product v m => Option.map₂ (fun f g i k => ∑ j ∈ Finset.range σ.size, f i j * g j k)
      (meaning σ v) (meaning σ m)
  | .hadamard a b => Option.map₂ (fun f g i k => f i k * g i k) (meaning σ a) (meaning σ b)
  | .weighted v w => Option.map₂ (fun f g i k => f i k * ∑ j ∈ Finset.range σ.size, g i j)
      (meaning σ v) (meaning σ w)
  | .softmax _ _ | .plugin _ _ => none

def Formula.Denotes (σ : Reading α) (e : Formula) (v : ℕ → α) : Prop :=
  ∃ f, e.meaning σ = some f ∧ ∀ k, f 0 k = v k

namespace Formula

variable {σ : Reading α} {a b : Formula} {v w : ℕ → α}

theorem denotes_input (name : String) (type : Option String) :
    (Formula.input name type).Denotes σ (σ.input name) :=
  ⟨_, rfl, fun _ => rfl⟩

theorem Denotes.congr (h : a.Denotes σ v) (heq : ∀ k, v k = w k) : a.Denotes σ w := by
  obtain ⟨f, hf, hv⟩ := h
  exact ⟨f, hf, fun k => (hv k).trans (heq k)⟩

theorem Denotes.add (ha : a.Denotes σ v) (hb : b.Denotes σ w) :
    (Formula.sum a b).Denotes σ fun k => v k + w k := by
  obtain ⟨f, hf, hv⟩ := ha
  obtain ⟨g, hg, hw⟩ := hb
  exact ⟨_, by rw [meaning, hf, hg]; rfl, fun k => by simp only [hv, hw]⟩

theorem Denotes.product (ha : a.Denotes σ v) {g : ℕ → ℕ → α} (hb : b.meaning σ = some g) :
    (Formula.product a b).Denotes σ fun k => ∑ j ∈ Finset.range σ.size, v j * g j k := by
  obtain ⟨f, hf, hv⟩ := ha
  exact ⟨_, by rw [meaning, hf, hb]; rfl, fun k => by simp only [hv]⟩

theorem Denotes.hadamard (ha : a.Denotes σ v) (hb : b.Denotes σ w) :
    (Formula.hadamard a b).Denotes σ fun k => v k * w k := by
  obtain ⟨f, hf, hv⟩ := ha
  obtain ⟨g, hg, hw⟩ := hb
  exact ⟨_, by rw [meaning, hf, hg]; rfl, fun k => by simp only [hv, hw]⟩

theorem Denotes.weighted (ha : a.Denotes σ v) (hb : b.Denotes σ w) :
    (Formula.weighted a b).Denotes σ fun k => v k * ∑ j ∈ Finset.range σ.size, w j := by
  obtain ⟨f, hf, hv⟩ := ha
  obtain ⟨g, hg, hw⟩ := hb
  exact ⟨_, by rw [meaning, hf, hg]; rfl, fun k => by simp only [hv, hw]⟩

end Formula

/-- A matrix is what stands in the database under the key of a handle. -/
structure Database.Keeps (db : Database α) (n : ℕ) (key : Predicate) (m : Matrix α) : Prop where
  /-- The matrix of a relation, from first to second argument. -/
  binary : key.arity = 2 → ∀ i k, m.entry i k = db.weight key.functor i k
  unary : key.arity = 1 → ∀ k, m.entry 0 k = db.rowWeight key.functor k
  ones : key = ⟨"__ones", 0⟩ → ∀ k < n, m.entry 0 k = 1
  zeros : key = ⟨"__zeros", 0⟩ → ∀ k, m.entry 0 k = 0
  /-- The row of an entity; other fixed rows have names like variables. -/
  entity : key.arity = 0 → isVariableName key.functor = false →
    ∀ k, m.entry 0 k = if db.idOf? key.functor = some k then 1 else 0

/-- Every handle has the value that stands in the database under its key. -/
def Formulary.Faithful (db : Database α) (n : ℕ) (f : Formulary α) : Prop :=
  ∀ key h, f.handle? key = some h → db.Keeps n key h.value

end

/-- What a derivation works on. -/
abbrev Deriving.State (α : Type) := World α × (Model α × Formulary α)

/-- The handles of formulas are handles of others too. -/
def Formulary.Extends (f f' : Formulary α) : Prop :=
  ∀ key h, f.handle? key = some h → f'.handle? key = some h

theorem Formulary.handle?_append (f : Formulary α) (h : Handle α) (key : Predicate) :
    ({ f with handles := f.handles ++ [h] } : Formulary α).handle? key =
      (f.handle? key).or (if h.key = key then some h else none) := by
  simp only [handle?]
  simp

section

variable [ExactScalar α]

/-- The model stays, and values of the database are registered. -/
structure Run.Derives (db : Database α) (n : ℕ) (t t' : Deriving.State α) : Prop where
  model : t'.2.1 = t.2.1
  drafts : t'.2.2.drafts = t.2.2.drafts
  handles : t.2.2.Extends t'.2.2
  faithful : t.2.2.Faithful db n → t'.2.2.Faithful db n

instance (db : Database α) (n : ℕ) : Settled (Derives db n) where
  refl _ := ⟨rfl, rfl, fun _ _ h => h, id⟩
  trans h h' := ⟨h'.model.trans h.model, h'.drafts.trans h.drafts,
    fun key hd hk => h'.handles key hd (h.handles key hd hk), fun hf => h'.faithful (h.faithful hf)⟩

end

namespace Run

variable {db : Database α} {t t' : Deriving.State α}

theorem withModel_database_ok :
    withModel database t = .ok db t' ↔ t.2.1.database = some db ∧ t = t' := by
  simp only [withModel, focus_ok, database, state_bind]
  constructor
  · rintro ⟨u, h, rfl⟩
    cases hdb : t.2.1.database with
    | none => simp [hdb] at h
    | some db' =>
      simp only [hdb] at h
      obtain ⟨rfl, rfl⟩ := h
      exact ⟨rfl, rfl⟩
  · rintro ⟨hdb, rfl⟩
    exact ⟨(t.1, t.2.1), by simp [hdb], rfl⟩

theorem database_bind {β : Type} (hdb : t.2.1.database = some db) (f : Database α → Deriving α β) :
    (withModel database >>= f) t = f db t :=
  bind_of_ok (withModel_database_ok.2 ⟨hdb, rfl⟩)

theorem formulary_bind {β : Type} {f : Formulary α → Deriving α β} :
    (formulary >>= f) t = f t.2.2 t := rfl

theorem updateFormulary_ok {f : Formulary α → Formulary α} {x : Unit} :
    updateFormulary f t = .ok x t' ↔ (t.1, (t.2.1, f t.2.2)) = t' := by
  simp [updateFormulary]

variable [ExactScalar α] {n : ℕ} {e : Formula}

/-- A matrix that gets a name has one afterwards. -/
theorem nameMatrix_ok {name : String} {broadcast : Bool} {value : Deriving α (Matrix α)}
    (hvalue : ∀ m u, value t = .ok m u → u = t ∧ db.Keeps n key m)
    (h : nameMatrix key name broadcast value t = .ok e t') :
    Derives db n t t' ∧ ∃ hd name', t'.2.2.handle? key = some hd ∧ e = .handle key name' := by
  simp only [nameMatrix, formulary_bind] at h
  cases hknown : t.2.2.handle? key with
  | some hd =>
    simp only [hknown] at h
    obtain ⟨rfl, rfl⟩ := h
    exact ⟨Settled.refl t, hd, hd.name, hknown, rfl⟩
  | none =>
    simp only [hknown, bind_ok, updateFormulary_ok] at h
    obtain ⟨m, u, hm, _, _, rfl, rfl, rfl⟩ := h
    obtain ⟨rfl, hkeeps⟩ := hvalue m u hm
    have hfind (k : Predicate) := u.2.2.handle?_append ⟨key, name, m, broadcast⟩ k
    refine ⟨⟨rfl, rfl, fun k hd hk => ?_, fun hf k hd hk => ?_⟩, ⟨key, name, m, broadcast⟩, name,
      ?_, rfl⟩
    · rw [hfind, hk, Option.some_or]
    · rw [hfind] at hk
      rcases Option.or_eq_some_iff.1 hk with hk | ⟨-, hk⟩
      · exact hf k hd hk
      · split at hk
        · next heq =>
          obtain rfl := Option.some.inj hk
          exact heq ▸ hkeeps
        · cases hk
    · rw [hfind, hknown, Option.none_or, if_pos rfl]

theorem nameRow_ok {name : String} {row : Except Error (Matrix α)}
    (hrow : ∀ m, row = .ok m → db.Keeps n ⟨name, 0⟩ m) (h : nameRow name row t = .ok e t') :
    Derives db n t t' ∧ ∃ hd name', t'.2.2.handle? ⟨name, 0⟩ = some hd ∧
      e = .handle ⟨name, 0⟩ name' := by
  simp only [nameRow, bind_ok, lift_ok] at h
  obtain ⟨m, _, ⟨hm, rfl⟩, h⟩ := h
  refine nameMatrix_ok (fun m' u hm' => ?_) h
  obtain ⟨rfl, rfl⟩ := pure_ok.1 hm'
  exact ⟨rfl, hrow m hm⟩

end Run

/-- A name is read back as the relation that has it. -/
def Mode.ReadsBack (functor : String) : Prop :=
  ∀ m, Mode.parse (functor ++ "(i,o)") = .ok m → m = Mode.inputOutput functor

/-- What is registered for the names in an action is what they stand for. -/
def Action.Named : Action → Prop
  | .preimage mode | .product _ mode _ => mode.arity = 2 → Mode.ReadsBack mode.functor
  | .oneHot _ constant => isVariableName constant = false
  | .plugin _ _ => False
  | .vector _ | .hadamard _ _ | .weighted _ _ => True

section

variable [ExactScalar α] {db : Database α} {n : ℕ}

/-- A reading binds every handle to the value in the database under its key. -/
def Formulary.ReadBy (db : Database α) (n : ℕ) (f : Formulary α) (σ : Reading α) : Prop :=
  σ.size = n ∧ ∀ key hd, f.handle? key = some hd → ∃ m, σ.handle key = some m ∧ db.Keeps n key m

theorem Formulary.Faithful.readBy (hf : f.Faithful db n) (input : String → ℕ → α) :
    f.ReadBy db n (f.reading n input) :=
  ⟨rfl, fun key hd hk => ⟨hd.value, by simp [reading, hk], hf key hd hk⟩⟩

variable {σ : Reading α}

theorem Formulary.Extends.readBy {f' : Formulary α} (h : f.Extends f') (hσ : f'.ReadBy db n σ) :
    f.ReadBy db n σ :=
  ⟨hσ.1, fun key hd hk => hσ.2 key hd (h key hd hk)⟩

theorem Formulary.ReadBy.meaning_handle (hσ : f.ReadBy db n σ) {hd : Handle α}
    (hkey : f.handle? key = some hd) (name : String) :
    ∃ m, db.Keeps n key m ∧ (Formula.handle key name).meaning σ = some m.entry := by
  obtain ⟨m, hm, hkeeps⟩ := hσ.2 key hd hkey
  exact ⟨m, hkeeps, by simp [Formula.meaning, hm]⟩

theorem Formulary.ReadBy.denotes_handle (hσ : f.ReadBy db n σ) {hd : Handle α}
    (hkey : f.handle? key = some hd) {v : ℕ → α} (hv : ∀ m, db.Keeps n key m → ∀ k, m.entry 0 k = v k)
    (name : String) : (Formula.handle key name).Denotes σ v := by
  obtain ⟨m, hm, hmean⟩ := hσ.meaning_handle hkey name
  exact ⟨_, hmean, hv m hm⟩

namespace Database.Regular

theorem keeps_ones (hdb : db.Regular n) {type : Except Error (Option String)}
    (hm : type >>= db.ones = .ok m) : db.Keeps n ⟨"__ones", 0⟩ m := by
  obtain ⟨type, -, hm⟩ := then_ok.1 hm
  obtain ⟨o, ho, -, hone⟩ := hdb.ones_spec type
  obtain rfl := ok_unique ho hm
  exact ⟨by simp, by simp, fun _ => hone, by simp, fun _ h => absurd h (by decide)⟩

theorem keeps_zeros (hdb : db.Regular n) (hm : db.zeros 1 type = .ok m) :
    db.Keeps n ⟨"__zeros", 0⟩ m := by
  rw [hdb.zeros_eq] at hm
  obtain rfl := Except.ok.inj hm
  exact ⟨by simp, by simp, by simp, fun _ k => by simp, fun _ h => absurd h (by decide)⟩

theorem keeps_entity (hdb : db.Regular n) {symbol : String} (hs : isVariableName symbol = false)
    (hm : db.oneHot symbol type = .ok m) : db.Keeps n ⟨symbol, 0⟩ m := by
  obtain ⟨a, ha, -, hone⟩ := hdb.oneHot_ok hm
  refine ⟨by simp, by simp, fun h => ?_, fun h => ?_, fun _ _ k => ?_⟩
  · rw [(Predicate.mk.inj h).1] at hs
    exact absurd hs (by decide)
  · rw [(Predicate.mk.inj h).1] at hs
    exact absurd hs (by decide)
  · simp [hone, ha, eq_comm]

theorem keeps_vector (hdb : db.Regular n) (hm : db.vector mode = .ok m) :
    db.Keeps n ⟨mode.functor, 1⟩ m := by
  obtain ⟨x, hx, hm⟩ := then_ok.1 hm
  obtain ⟨-, m', rfl, -, he⟩ := hdb.rowOperand_ok hx
  obtain rfl : m' = m := Except.ok.inj hm
  exact ⟨by simp, fun _ => he, by simp, by simp, by simp⟩

theorem keeps_matrix (hdb : db.Regular n) {functor : String}
    (hm : db.matrix (.inputOutput functor) false = .ok m) : db.Keeps n ⟨functor, 2⟩ m := by
  obtain ⟨x, hx, hm⟩ := then_ok.1 hm
  obtain ⟨-, m', rfl, -, he⟩ := hdb.operand_ok hx
  obtain rfl : m' = m := Except.ok.inj hm
  refine ⟨fun _ i k => ?_, by simp, by simp, by simp, by simp⟩
  rw [he]
  rfl

end Database.Regular

/-- Formulas of variables mean the rows that are bound to them. -/
def NameSpace.Agrees (s : NameSpace) (σ : Reading α) (b : Bindings α) : Prop :=
  ∀ x e m, s.get x = .ok e → b.value x = .ok m → e.Denotes σ (m.entry 0)

theorem NameSpace.get_bind (s : NameSpace) (x y : String) (e : Formula) :
    (s.bind x e).get y = if x = y then .ok e else s.get y := by
  by_cases h : x = y <;> simp [get, NameSpace.bind, h]

theorem NameSpace.Agrees.bind {b : Bindings α} (h : s.Agrees σ b) (x : String)
    {e : Formula} (he : e.Denotes σ (m.entry 0)) : (s.bind x e).Agrees σ (b.bind x m) := by
  intro y e' m' he' hm'
  rw [NameSpace.get_bind] at he'
  rw [value_bind] at hm'
  split at he'
  · next heq =>
    rw [if_pos heq] at hm'
    cases he'
    cases hm'
    exact he
  · next hne =>
    rw [if_neg hne] at hm'
    exact h y e' m' he' hm'

namespace Run

variable {t t' : Deriving.State α} {e : Formula}

theorem nameVector_ok (hdb : db.Regular n) (hmodel : t.2.1.database = some db)
    (h : nameVector mode t = .ok e t') :
    Derives db n t t' ∧ ∃ hd name', t'.2.2.handle? ⟨mode.functor, 1⟩ = some hd ∧
      e = .handle ⟨mode.functor, 1⟩ name' := by
  obtain ⟨_, _, hrequire, h⟩ := bind_ok.1 h
  obtain ⟨-, rfl⟩ := require_ok.1 hrequire
  rw [database_bind hmodel] at h
  refine nameMatrix_ok (fun m u hm => ?_) h
  simp only [bind_ok, require_ok, lift_ok] at hm
  obtain ⟨_, _, ⟨-, rfl⟩, hm, rfl⟩ := hm
  exact ⟨rfl, hdb.keeps_vector hm⟩

/-- A matrix is registered from first to second argument. -/
theorem nameRelation_ok (hdb : db.Regular n) (hmodel : t.2.1.database = some db) {transpose : Bool}
    (hreads : mode.arity = 2 → Mode.ReadsBack mode.functor)
    (h : nameRelation mode transpose t = .ok e t') :
    Derives db n t t' ∧ ∀ σ, t'.2.2.ReadBy db n σ →
      ∃ g, e.meaning σ = some g ∧ ∀ i k, g i k = db.carried mode transpose i k := by
  simp only [nameRelation, bind_ok, require_ok, withModel_database_ok, lift_ok] at h
  obtain ⟨_, _, ⟨harity, rfl⟩, db', _, ⟨hdb', rfl⟩, straight, _, ⟨hstraight, rfl⟩, m, u, hm, tr, _,
    ⟨htr, rfl⟩, rfl, rfl⟩ := h
  obtain rfl := Option.mem_unique hmodel hdb'
  obtain rfl := hreads (of_decide_eq_true harity) straight hstraight
  obtain ⟨hderives, hd, name, hkey, rfl⟩ := nameMatrix_ok (fun m u hm =>
    show u = _ ∧ db.Keeps n _ m by
      simp only [bind_ok, require_ok, lift_ok] at hm
      obtain ⟨_, _, ⟨-, rfl⟩, hm, rfl⟩ := hm
      exact ⟨rfl, hdb.keeps_matrix hm⟩) hm
  refine ⟨hderives, fun σ hσ => ?_⟩
  obtain ⟨m, hkeeps, hmean⟩ := hσ.meaning_handle hkey name
  have htr := ok_unique (Database.isTransposed_eq (of_decide_eq_true harity) _) htr
  cases tr with
  | true =>
    refine ⟨fun i k => m.entry k i, ?_, fun i k => ?_⟩
    · rw [if_pos rfl, Formula.meaning, hmean]
      rfl
    · rw [Database.carried, if_pos (by simpa using htr)]
      exact hkeeps.binary rfl k i
  | false =>
    refine ⟨m.entry, by simp [hmean], fun i k => ?_⟩
    rw [hkeeps.binary rfl, Database.carried, if_neg (by simpa using htr)]

/-- The formula of an action means the row that the action computes. -/
theorem actionFormula_ok (hdb : db.Regular n) (hmodel : t.2.1.database = some db) {a : Action}
    (hnamed : a.Named) (h : actionFormula s type a t = .ok e t') :
    Derives db n t t' ∧ ∀ σ, t'.2.2.ReadBy db n σ → ∀ (c : Settings α) (b : Bindings α) m,
      b.Single n → s.Agrees σ b → a.eval c db b type = .ok m →
        m.Shaped 1 n ∧ e.Denotes σ (m.entry 0) := by
  -- What is left in every case is that the formula means the vector that the action computes.
  suffices hkey : Derives db n t t' ∧ ∀ σ, t'.2.2.ReadBy db n σ → ∀ b : Bindings α,
      (∀ x ∈ a.reads, ∀ e, s.get x = .ok e → e.Denotes σ (b.vector 0 x)) →
        e.Denotes σ (a.compute db n (b.vector 0)) by
    refine ⟨hkey.1, fun σ hσ c b m hrows hagrees hm => ?_⟩
    obtain ⟨hshaped, hentry⟩ := Action.value_of_ok hdb hrows hm
    refine ⟨hshaped, (hkey.2 σ hσ b fun x hx e he => ?_).congr fun k => (hentry k).symm⟩
    obtain ⟨r, hr⟩ := (Action.fits_of_ok hdb hm).2 x hx
    rw [hrows.vector_eq hr]
    exact hagrees x e r he hr
  cases a with
  | preimage mode =>
    simp only [actionFormula, database_bind hmodel, bind_ok] at h
    obtain ⟨ones, u, hones, m, v, hm, rfl, rfl⟩ := h
    obtain ⟨hderives, hd, name, hone, rfl⟩ := nameRow_ok (fun m => hdb.keeps_ones) hones
    obtain ⟨hderives', hmean⟩ := nameRelation_ok hdb (hderives.model ▸ hmodel) hnamed hm
    refine ⟨Settled.trans hderives hderives', fun σ hσ b hreads => ?_⟩
    obtain ⟨g, hg, hcarried⟩ := hmean σ hσ
    obtain ⟨o, hkeeps, ho⟩ := hσ.meaning_handle (hderives'.handles _ _ hone) name
    refine Formula.Denotes.congr (.product ⟨_, ho, fun k => rfl⟩ hg) fun k => ?_
    rw [hσ.1]
    refine Finset.sum_congr rfl fun i hi => ?_
    rw [hkeeps.ones rfl i (Finset.mem_range.1 hi), hcarried, one_mul]
  | vector mode =>
    obtain ⟨hderives, hd, name, hkey, rfl⟩ := nameVector_ok hdb hmodel h
    refine ⟨hderives, fun σ hσ b hreads => ?_⟩
    exact hσ.denotes_handle hkey (fun m hm k => hm.unary rfl k) name
  | oneHot mode constant =>
    rw [actionFormula, nameEntity, database_bind hmodel] at h
    obtain ⟨hderives, hd, name, hkey, rfl⟩ := nameRow_ok (fun m => hdb.keeps_entity hnamed) h
    refine ⟨hderives, fun σ hσ b hreads => ?_⟩
    exact hσ.denotes_handle hkey (fun m hm k => hm.entity rfl hnamed k) name
  | product source mode transpose =>
    simp only [actionFormula, bind_ok, lift_ok] at h
    obtain ⟨v, _, ⟨hv, rfl⟩, m, u, hm, rfl, rfl⟩ := h
    obtain ⟨hderives, hmean⟩ := nameRelation_ok hdb hmodel hnamed hm
    refine ⟨hderives, fun σ hσ b hreads => ?_⟩
    obtain ⟨g, hg, hcarried⟩ := hmean σ hσ
    refine ((hreads source (by simp) v hv).product hg).congr fun k => ?_
    simp only [hcarried, hσ.1]
    rfl
  | plugin sources mode => exact hnamed.elim
  | hadamard left right =>
    simp only [actionFormula, bind_ok, lift_ok] at h
    obtain ⟨l, _, ⟨hl, rfl⟩, r, _, ⟨hr, rfl⟩, rfl, rfl⟩ := h
    refine ⟨Settled.refl t, fun σ hσ b hreads => ?_⟩
    exact (hreads left (by simp) l hl).hadamard
      (hreads right (by simp) r hr)
  | weighted weight row =>
    simp only [actionFormula, bind_ok, lift_ok] at h
    obtain ⟨r, _, ⟨hr, rfl⟩, w, _, ⟨hw, rfl⟩, rfl, rfl⟩ := h
    refine ⟨Settled.refl t, fun σ hσ b hreads => ?_⟩
    rw [← hσ.1]
    exact (hreads row (by simp) r hr).weighted
      (hreads weight (by simp) w hw)

/-- A rule starts with its inputs in a new name space. -/
theorem enterRule_ok (hdb : db.Regular n) (hmodel : t.2.1.database = some db) {p : Plan}
    {names : List String} {shared : Option (List Formula)} {inputs : List Formula}
    (h : enterRule p names shared t = .ok (s, inputs) t') :
    Derives db n t t' ∧ (∀ given, shared = some given → inputs = given) ∧
      (shared = none → ∀ e ∈ inputs, ∃ name type, e = .input name type) ∧
      ∃ u, names = [u] ∧ ∀ (σ : Reading α) (x : Matrix α),
        (∀ e ∈ inputs, e.Denotes σ (x.entry 0)) → s.Agrees σ (start u x) := by
  simp only [enterRule, bind_ok, require_ok, updateFormulary_ok, formulary_bind] at h
  obtain ⟨_, _, ⟨hlen, rfl⟩, _, _, rfl, h⟩ := h
  obtain ⟨u, rfl⟩ := length_eq_one_iff.1 (of_decide_eq_true hlen)
  have hstart : Derives db n t (t.1, (t.2.1, { t.2.2 with nextSpace := t.2.2.nextSpace + 1 })) :=
    ⟨rfl, rfl, fun _ _ h => h, id⟩
  have hagrees (found : List Formula) (σ : Reading α) (x : Matrix α)
      (hin : ∀ e ∈ found, e.Denotes σ (x.entry 0)) :
      (([u].zip found).foldl (fun s e => s.bind e.1 e.2)
        ({ id := t.2.2.nextSpace } : NameSpace)).Agrees σ (start u x) := by
    intro y e m he hm
    obtain ⟨rfl, rfl⟩ := value_start.1 hm
    cases found with
    | nil => simp [NameSpace.get, Dictionary.get?, Dictionary.lookup] at he
    | cons e0 es =>
      have he : (({ id := t.2.2.nextSpace } : NameSpace).bind u e0).get u = .ok e := he
      rw [NameSpace.get_bind, if_pos rfl] at he
      obtain rfl := Except.ok.inj he
      exact hin e0 mem_cons_self
  cases shared with
  | some given =>
    simp only [bind_ok, require_ok, pure_ok] at h
    obtain ⟨_, _, ⟨-, rfl⟩, _, _, ⟨rfl, rfl⟩, heq, rfl⟩ := h
    obtain ⟨rfl, rfl⟩ := Prod.mk.inj heq
    exact ⟨hstart, by simp, by simp, u, rfl, hagrees _⟩
  | none =>
    have htypeless : db.isTypeless = true := by
      obtain ⟨symbols, hs, -⟩ := hdb.untyped
      rw [Database.isTypeless, hs]
      rfl
    simp only [bind_ok, withModel_database_ok, lift_ok, pure_ok] at h
    obtain ⟨db', _, ⟨hdb', rfl⟩, types, _, ⟨-, rfl⟩, found, v, hfound, heq, rfl⟩ := h
    obtain rfl := Option.mem_unique hmodel hdb'
    obtain ⟨rfl, rfl⟩ := Prod.mk.inj heq
    simp only [htypeless] at hfound
    obtain ⟨hderives, hall⟩ := mapM_ok (R := Derives db n)
      (fun x _ => moves_settings.bind fun _ => moves_pure) hfound
    refine ⟨Settled.trans hstart hderives, by simp, fun _ e he => ?_, u, rfl, hagrees _⟩
    obtain ⟨x, -, t1, t2, -, hx, -⟩ := exists_of_forall₂ hall.flip e he
    obtain ⟨_, _, rfl, rfl, -⟩ := hx
    exact ⟨_, _, rfl⟩

end Run

end

def NodeCheck.named : NodeCheck where
  plan
    | .log _ _ | .softmax _ _ => False
    | _ => True
  step
    | .act _ a => a.Named
    | .call .. => True

/-- What is registered for the names in a plan is what they stand for. -/
abbrev Plan.Named (p : Plan) : Prop := p.Meets .named

theorem NodeCheck.Bare.named : NodeCheck.named.Bare where
  plan p := by cases p <;> exact .rfl
  step t := by cases t <;> exact .rfl

section

variable [ExactScalar α] {db : Database α} {n : ℕ}

/-- A formula means the result of a plan on the row of its inputs, now and later. -/
def Formula.Means (db : Database α) (n : ℕ) (f : Formulary α) (inputs : List Formula) (e : Formula)
    (p : Plan) : Prop :=
  ∀ σ, f.ReadBy db n σ → ∀ (c : Settings α) x y, x.Shaped 1 n →
    (∀ i ∈ inputs, i.Denotes σ (x.entry 0)) → p.result c db [x] = .ok y →
      y.Shaped 1 n ∧ e.Denotes σ (y.entry 0)

/-- A formula that means a plan's results, with new or shared inputs. -/
structure Run.PlanDerived (db : Database α) (n : ℕ) (shared : Option (List Formula)) (p : Plan)
    (d : Derived) (t t' : Deriving.State α) : Prop where
  derives : Derives db n t t'
  given : ∀ inputs, shared = some inputs → d.inputs ⊆ inputs
  new : shared = none → ∀ e ∈ d.inputs, ∃ name type, e = .input name type
  means : d.formula.Means db n t'.2.2 (shared.getD d.inputs) p

/-- The sum of formulas means the sum of the rows that they mean. -/
def Run.SumDerived (db : Database α) (n : ℕ) (sum d : Derived) (ps : List Plan)
    (t t' : Deriving.State α) : Prop :=
  Derives db n t t' ∧ d.inputs = sum.inputs ∧
    ∀ σ, t'.2.2.ReadBy db n σ → ∀ (c : Settings α) x ms v, x.Shaped 1 n →
      (∀ i ∈ sum.inputs, i.Denotes σ (x.entry 0)) →
      Forall₂ (fun p m => p.result c db [x] = .ok m) ps ms → sum.formula.Denotes σ v →
      (∀ m ∈ ms, m.Shaped 1 n) ∧
        d.formula.Denotes σ fun k => v k + (ms.map fun m => m.entry 0 k).sum

mutual

theorem Plan.Named.derived (hdb : db.Regular n) : ∀ (p : Plan), p.Named →
    ∀ (shared : Option (List Formula)) (t t' : Deriving.State α) d,
      t.2.1.database = some db → deriveFormula shared p t = .ok d t' →
        PlanDerived db n shared p d t t'
  | .null i mode, _, shared, t, t', d, hmodel, h => by
    simp only [deriveFormula, database_bind hmodel, bind_ok, pure_ok, formulary_bind] at h
    obtain ⟨e, u, he, rfl, rfl⟩ := h
    obtain ⟨hderives, hd, name, hkey, rfl⟩ := nameRow_ok (fun m => hdb.keeps_zeros) he
    refine ⟨hderives, by simp, by simp, fun σ hσ c x y hx _ hy => ?_⟩
    have hy : db.zeros x.height _ = .ok y := hy
    rw [hdb.zeros_eq, hx.height_eq] at hy
    obtain rfl := Except.ok.inj hy
    refine ⟨Matrix.shaped_empty 1 n, ?_⟩
    exact hσ.denotes_handle hkey (fun m hm k => by simp [hm.zeros rfl k]) name
  | .log i p, hnamed, _, _, _, _, _, _ => hnamed.1.elim
  | .softmax i p, hnamed, _, _, _, _, _, _ => hnamed.1.elim
  | .sum i [], _, _, _, _, _, _, h => by simp [deriveFormula] at h
  | .sum i (p :: ps), hnamed, shared, t, t', d, hmodel, h => by
    simp only [deriveFormula, bind_ok] at h
    obtain ⟨d1, u, h1, h⟩ := h
    have hfirst := Plan.Named.derived hdb p hnamed.2.1 shared t u d1 hmodel h1
    obtain ⟨hderives, hinputs, hmeans⟩ := Plan.Named.sumDerived hdb ps hnamed.2.2 d1 u t' d
      (hfirst.derives.model ▸ hmodel) h
    refine ⟨Settled.trans hfirst.derives hderives, hinputs ▸ hfirst.given, hinputs ▸ hfirst.new,
      fun σ hσ c x y hx hin hy => ?_⟩
    obtain ⟨ms, hms, hy⟩ := then_ok.1 hy
    cases ms with
    | nil => cases hy
    | cons _ _ =>
      simp only [Plan.results, then_ok, except_pure_ok, List.cons.injEq] at hms
      obtain ⟨m, hm, ms, hms, rfl, rfl⟩ := hms
      obtain ⟨hmshape, hdenotes⟩ :=
        hfirst.means σ (hderives.handles.readBy hσ) c x m hx (hinputs ▸ hin) hm
      have hsum : ∀ i ∈ d1.inputs, i.Denotes σ (x.entry 0) := by
        cases shared with
        | none => exact fun i hi => hin i (hinputs ▸ hi)
        | some inputs => exact fun i hi => hin i (hfirst.given inputs rfl hi)
      obtain ⟨hshapes, hall⟩ := hmeans σ hσ c x ms _ hx hsum (Plan.result_of_results hms) hdenotes
      obtain ⟨S, hS, hSs, hSe⟩ := Matrix.exists_foldlM_add ms hmshape hshapes
      obtain rfl := ok_unique hS hy
      exact ⟨hSs, hall.congr fun k => (hSe 0 k).symm⟩
  | .sequence i xs y ss r, hnamed, shared, t, t', d, hmodel, h => by
    simp only [deriveFormula, bind_ok, lift_ok, pure_ok, formulary_bind] at h
    obtain ⟨⟨s, inputs⟩, u, hu, s', v, hv, e, _, ⟨he, rfl⟩, rfl, rfl⟩ := h
    obtain ⟨hderives, hgiven, hnew, x0, rfl, hagrees⟩ := enterRule_ok hdb hmodel hu
    obtain ⟨hderives', hsteps⟩ := Step.Named.derived hdb ss hnamed.2 s s' u v
      (hderives.model ▸ hmodel) hv
    refine ⟨Settled.trans hderives hderives', fun given hs => hgiven given hs ▸ List.Subset.refl _, hnew,
      fun σ hσ c x m hx hin hm => ?_⟩
    rw [Plan.result, if_pos (by rfl)] at hm
    obtain ⟨b, hb, hm⟩ := then_ok.1 hm
    have hin' : ∀ e ∈ inputs, e.Denotes σ (x.entry 0) := by
      cases shared with
      | none => exact hin
      | some given => exact hgiven given rfl ▸ hin
    obtain ⟨hrows', hagrees'⟩ := hsteps σ hσ c _ b (single_start hx x0) (hagrees _ x hin') hb
    exact ⟨hrows' y m hm, hagrees' y e m he hm⟩

theorem Plan.Named.sumDerived (hdb : db.Regular n) : ∀ (ps : List Plan), Plan.AllMeet .named ps →
    ∀ (sum : Derived) (t t' : Deriving.State α) d,
      t.2.1.database = some db → deriveSum sum ps t = .ok d t' → SumDerived db n sum d ps t t'
  | [], _, sum, t, t', d, _, h => by
    obtain ⟨rfl, rfl⟩ := h
    refine ⟨Settled.refl t, rfl, fun σ _ c x ms v _ _ hms hv => ?_⟩
    obtain rfl := forall₂_nil_left_iff.1 hms
    exact ⟨by simp, by simpa using hv⟩
  | p :: ps, hnamed, sum, t, t', d, hmodel, h => by
    simp only [deriveSum, bind_ok, require_ok] at h
    obtain ⟨d1, u, h1, _, _, ⟨-, rfl⟩, _, _, ⟨-, rfl⟩, h⟩ := h
    have hfirst := Plan.Named.derived hdb p hnamed.1 (some sum.inputs) t u d1 hmodel h1
    obtain ⟨hderives, hinputs, hmeans⟩ := Plan.Named.sumDerived hdb ps hnamed.2 _ u t' d
      (hfirst.derives.model ▸ hmodel) h
    refine ⟨Settled.trans hfirst.derives hderives, hinputs, ?_⟩
    intro σ hσ c x ms v hx hin hms hv
    obtain ⟨m, ms, hm, hrest, rfl⟩ := forall₂_cons_left_iff.1 hms
    obtain ⟨hmshape, hdenotes⟩ := hfirst.means σ (hderives.handles.readBy hσ) c x m hx hin hm
    obtain ⟨hshapes, hall⟩ := hmeans σ hσ c x ms _ hx hin hrest (hv.add hdenotes)
    refine ⟨forall_mem_cons.2 ⟨hmshape, hshapes⟩, hall.congr fun k => ?_⟩
    rw [map_cons, sum_cons, add_assoc]

/-- The formulas of steps mean the rows that the steps bind. -/
theorem Step.Named.derived (hdb : db.Regular n) : ∀ (ts : List Step), Step.AllMeet .named ts →
    ∀ (s s' : NameSpace) (t t' : Deriving.State α),
      t.2.1.database = some db → deriveSteps s ts t = .ok s' t' →
      Derives db n t t' ∧ ∀ σ, t'.2.2.ReadBy db n σ → ∀ (c : Settings α) b b',
        b.Single n → s.Agrees σ b → Step.bindAll c db ts b = .ok b' →
          b'.Single n ∧ s'.Agrees σ b'
  | [], _, s, s', t, t', _, h => by
    obtain ⟨rfl, rfl⟩ := h
    refine ⟨Settled.refl t, fun σ _ c b b' hrows hagrees hb => ?_⟩
    obtain rfl := except_pure_ok.1 hb
    exact ⟨hrows, hagrees⟩
  | .act i a :: ts, hnamed, s, s', t, t', hmodel, h => by
    simp only [deriveSteps, bind_ok] at h
    obtain ⟨e, u, he, h⟩ := h
    obtain ⟨hderives, haction⟩ := actionFormula_ok hdb hmodel hnamed.1 he
    obtain ⟨hderives', hsteps⟩ := Step.Named.derived hdb ts hnamed.2 _ s' u t'
      (hderives.model ▸ hmodel) h
    refine ⟨Settled.trans hderives hderives', fun σ hσ c b b' hrows hagrees hb => ?_⟩
    obtain ⟨m, hm, hb⟩ := then_ok.1 hb
    obtain ⟨hshaped, hdenotes⟩ := haction σ (hderives'.handles.readBy hσ) c b m hrows hagrees hm
    exact hsteps σ hσ c _ b' (hrows.bind i.target hshaped)
      (hagrees.bind i.target hdenotes) hb
  | .call i x mode d p :: ts, hnamed, s, s', t, t', hmodel, h => by
    simp only [deriveSteps, bind_ok, lift_ok] at h
    obtain ⟨e, _, ⟨he, rfl⟩, d1, u, h1, h⟩ := h
    have hbody := Plan.Named.derived hdb p hnamed.1.2 (some [e]) t u d1 hmodel h1
    obtain ⟨hderives', hsteps⟩ := Step.Named.derived hdb ts hnamed.2 _ s' u t'
      (hbody.derives.model ▸ hmodel) h
    refine ⟨Settled.trans hbody.derives hderives', fun σ hσ c b b' hrows hagrees hb => ?_⟩
    obtain ⟨m, hm, hb⟩ := then_ok.1 hb
    obtain ⟨source, hsource, hm⟩ := then_ok.1 hm
    obtain ⟨hshaped, hdenotes⟩ := hbody.means σ (hderives'.handles.readBy hσ) c source m
      (hrows x source hsource) (by simpa using hagrees x e source he hsource) hm
    exact hsteps σ hσ c _ b' (hrows.bind i.target hshaped)
      (hagrees.bind i.target hdenotes) hb

end

end

end BeliefLogic
