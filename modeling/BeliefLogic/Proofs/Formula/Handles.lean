import BeliefLogic.Proofs.Endings
import BeliefLogic.Proofs.Formula.Meaning

/-!
# Which value a handle has

The first value under a key stays. The key of a relation determines its matrix, but fixed rows are
kept without their type.
-/

namespace BeliefLogic

open Outcome Run

variable {α : Type} {m : Matrix α} {mode : Mode} {r : NameRequest}
variable {x : Except Error (Matrix α)} {seen : List NameRequest}

/-- What can be asked for under a name: a fixed row, the row of an entity or a relation, or a
matrix. -/
inductive NameRequest where
  | ones (type : Option String)
  | zeros (type : Option String)
  | entity (symbol : String) (type : Option String)
  | vector (mode : Mode)
  | relation (mode : Mode) (transpose : Bool)

/-- The matrix that an expression of handles stands for. -/
def Formulary.registered (f : Formulary α) : Formula → Option (Matrix α)
  | .handle key _ => (f.handle? key).map Handle.value
  | .transpose e => (f.registered e).map Matrix.transpose
  | _ => none

namespace NameRequest

def key : NameRequest → Predicate
  | .ones _ => ⟨"__ones", 0⟩
  | .zeros _ => ⟨"__zeros", 0⟩
  | .entity symbol _ => ⟨symbol, 0⟩
  | .vector mode => ⟨mode.functor, 1⟩
  | .relation mode _ => ⟨mode.functor, 2⟩

/-- Whether the matrix of the relation is transposed. -/
def turned : NameRequest → Bool
  | .relation mode transpose => Database.isForward mode == transpose
  | _ => false

def returned (r : NameRequest) (name : String) : Formula :=
  if r.turned then .transpose (.handle r.key name) else .handle r.key name

/-- The names of relations are read back in the mode of their matrices. -/
def IsPlain : NameRequest → Prop
  | .relation mode _ => Mode.parse (mode.functor ++ "(i,o)") = .ok (.inputOutput mode.functor)
  | _ => True

variable {db : Database α} {t : Deriving.State α}

def adding (t : Deriving.State α) (h : Handle α) : Deriving.State α :=
  (t.1, (t.2.1, { t.2.2 with handles := t.2.2.handles ++ [h] }))

/-- A matrix gets a name that is computed without other effects. -/
theorem nameMatrix_lift (key : Predicate) (name : String) (broadcast : Bool)
    (x : Except Error (Matrix α)) (t : Deriving.State α) :
    nameMatrix key name broadcast (lift x) t = match t.2.2.handle? key, x with
      | some h, _ => .ok (.handle key h.name) t
      | none, .ok m => .ok (.handle key name) (adding t ⟨key, name, m, broadcast⟩)
      | none, .error e => .error e t := by
  rw [nameMatrix]
  rw [formulary_bind]
  cases t.2.2.handle? key with
  | some h => rfl
  | none => cases x <;> rfl

/-- What is registered if the relation is there. -/
def guarded (db : Database α) (p : Predicate) (why : Refusal) (x : Except Error (Matrix α)) :
    Except Error (Matrix α) :=
  if db.relations.contains p then x else .error (.refused why)

theorem guarded_ok {p : Predicate} {why : Refusal} :
    guarded db p why x = .ok m ↔ db.relations.contains p ∧ x = .ok m := by
  unfold guarded
  split <;> simp_all

theorem lift_guarded {σ : Type} (p : Predicate) (why : Refusal) (x : Except Error (Matrix α)) :
    (require (db.relations.contains p) why >>= fun _ => lift x : Run α σ (Matrix α)) =
      lift (guarded db p why x) := by
  unfold guarded
  cases db.relations.contains p <;> rfl

theorem toMatrix_ok {part : String} {x : Operand α} : x.toMatrix part = .ok m ↔ x = .matrix m := by
  cases x <;> simp [Operand.toMatrix]

theorem vector_ok : db.vector mode = .ok m ↔
    mode.arity = 1 ∧ db.relations.get? ⟨mode.functor, 1⟩ = some (.matrix m) := by
  simp [Database.vector, Database.rowOperand_ok_iff, toMatrix_ok]

/-- The matrix of a mode is that of the relation or its transpose. -/
theorem matrix_ok {transpose : Bool} :
    db.matrix mode transpose = .ok m ↔ mode.arity = 2 ∧
      ∃ m', db.relations.get? ⟨mode.functor, 2⟩ = some (.matrix m') ∧
        m = if Database.isForward mode == transpose then m'.transpose else m' := by
  simp only [Database.matrix, then_ok, Database.operand_ok_iff, toMatrix_ok, exists_eq_right,
    beq_iff_eq]
  refine and_congr_right fun _ => ⟨?_, ?_⟩
  · rintro ⟨m' | d, hy, hx⟩
    · exact ⟨m', hy, by split at hx <;> cases hx <;> simp [*]⟩
    · split at hx <;> cases hx
  · rintro ⟨m', hy, rfl⟩
    exact ⟨_, hy, by split <;> rfl⟩

theorem registered_returned {f : Formulary α} {h : Handle α} (hget : f.handle? r.key = some h)
    (name : String) :
    f.registered (r.returned name) = some (if r.turned then h.value.transpose else h.value) := by
  unfold returned
  split <;> simp [Formulary.registered, hget]

theorem exists_ok_registered {e : Formula} {v : Matrix α} (hv : t.2.2.registered e = some v)
    (m : Matrix α) :
    (∃ e' t', (.ok e t : EStateM.Result Error _ Formula) = .ok e' t' ∧
      t'.2.2.registered e' = some m) ↔ v = m := by
  constructor
  · rintro ⟨_, _, h, hm⟩
    cases h
    exact Option.mem_unique hv hm
  · rintro rfl
    exact ⟨e, t, rfl, hv⟩

variable [Scalar α]

/-- The value of the database that is asked for. -/
def asked (db : Database α) : NameRequest → Except Error (Matrix α)
  | .ones type => db.ones type
  | .zeros type => db.zeros 1 type
  | .entity symbol type => db.oneHot symbol type
  | .vector mode => db.vector mode
  | .relation mode transpose => db.matrix mode transpose

/-- The value that is registered if there is none yet. -/
def stored (db : Database α) : NameRequest → Except Error (Matrix α)
  | .relation mode _ => Mode.parse (mode.functor ++ "(i,o)") >>= (db.matrix · false)
  | r => r.asked db

/-- There is a row to ask for, or a mode of the right number of arguments. -/
def Fits (db : Database α) : NameRequest → Prop
  | .vector mode => mode.arity = 1
  | .relation mode _ => mode.arity = 2
  | r => ∃ m, r.asked db = .ok m

def run : NameRequest → Deriving α Formula
  | .ones type => do nameRow "__ones" ((← withModel database).ones type)
  | .zeros type => do nameRow "__zeros" ((← withModel database).zeros 1 type)
  | .entity symbol type => nameEntity symbol type
  | .vector mode => nameVector mode
  | .relation mode transpose => nameRelation mode transpose

/-- What is there after requests, however each of them ended. -/
def after (rs : List NameRequest) (t : Deriving.State α) : Deriving.State α :=
  rs.foldl (fun t r => ending (r.run t)) t

/-- A request fails for lack of a value, or returns a handle, new or known. -/
inductive Served (db : Database α) (r : NameRequest) (t : Deriving.State α) :
    EStateM.Result Error (Deriving.State α) Formula → Prop where
  | failed (e : Error) : (r.IsPlain → ∀ m, r.asked db ≠ .ok m) → Served db r t (.error e t)
  | known (h : Handle α) : r.Fits db → t.2.2.handle? r.key = some h →
      Served db r t (.ok (r.returned h.name) t)
  | added (h : Handle α) : r.Fits db → t.2.2.handle? r.key = none → h.key = r.key →
      r.stored db = .ok h.value → Served db r t (.ok (r.returned h.name) (adding t h))

theorem served_nameMatrix (hfits : r.Fits db) (name : String) (broadcast : Bool)
    (hstored : ∀ m, x = .ok m → r.stored db = .ok m)
    (hnone : ∀ e, x = .error e → r.IsPlain → ∀ m, r.asked db ≠ .ok m) :
    Served db r t ((nameMatrix r.key name broadcast (lift x) >>= fun m =>
      pure (if r.turned then .transpose m else m)) t) := by
  simp only [bind, EStateM.bind, nameMatrix_lift]
  cases hh : t.2.2.handle? r.key with
  | some h => exact .known h hfits hh
  | none =>
    cases x with
    | ok m => exact .added ⟨r.key, name, m, broadcast⟩ hfits hh rfl (hstored m rfl)
    | error e => exact .failed e (hnone e rfl)

theorem served_nameRow (hturned : r.turned = false) (harity : r.key.arity = 0)
    (hstored : r.stored db = r.asked db) (hfits : ∀ m, r.asked db = .ok m → r.Fits db) :
    Served db r t (nameRow r.key.functor (r.asked db) t) := by
  have hkey : (⟨r.key.functor, 0⟩ : Predicate) = r.key := by rw [← harity]
  cases hx : r.asked db with
  | error e => exact .failed e fun _ m hm => by simp [hx] at hm
  | ok m =>
    have hserved := served_nameMatrix (t := t) (hfits m hx) r.key.functor true
      (fun _ h => hstored.trans (hx.trans h)) fun _ h => by cases h
    simp only [hturned, Bool.false_eq_true, if_false, bind_pure] at hserved
    rw [← hkey] at hserved
    exact hserved

theorem served_vector (hdb : t.2.1.database = some db) (mode : Mode) :
    Served db (.vector mode) t ((NameRequest.vector mode).run t) := by
  by_cases harity : mode.arity = 1
  · have hserved := served_nameMatrix (r := .vector mode) (t := t) harity ("v__" ++ mode.functor) true
      (x := guarded db ⟨mode.functor, 1⟩ (.noValue mode.text) (db.vector mode))
      (fun m hm => (guarded_ok.1 hm).2) fun e he _ m hasked => ?_
    · rw [← lift_guarded] at hserved
      rw [run, nameVector, decide_eq_true harity]
      exact (database_bind hdb _).symm ▸ by simpa [turned, key] using hserved
    · have hthere : db.relations.contains ⟨mode.functor, 1⟩ := by
        simp [Dictionary.contains, (vector_ok.1 hasked).2]
      cases he.symm.trans (guarded_ok.2 ⟨hthere, hasked⟩)
  · rw [run, nameVector, decide_eq_false harity]
    exact .failed _ fun _ m hasked => harity (vector_ok.1 hasked).1

theorem served_relation (hdb : t.2.1.database = some db) (mode : Mode) (transpose : Bool) :
    Served db (.relation mode transpose) t ((NameRequest.relation mode transpose).run t) := by
  by_cases harity : mode.arity = 2
  · cases hmode : Mode.parse (mode.functor ++ "(i,o)") with
    | error e =>
      rw [run, nameRelation, decide_eq_true harity, hmode]
      refine (database_bind hdb _).symm ▸ .failed e fun hplain => ?_
      cases hmode.symm.trans hplain
    | ok straight =>
      have hserved := served_nameMatrix (r := .relation mode transpose) (t := t) harity
        ("M__" ++ mode.functor) false
        (x := guarded db ⟨mode.functor, 2⟩ (.noValue mode.text) (db.matrix straight false))
        (fun m hm => then_ok.2 ⟨straight, hmode, (guarded_ok.1 hm).2⟩)
        fun e he hplain m hasked => ?_
      · rw [← lift_guarded] at hserved
        rw [run, nameRelation, decide_eq_true harity, hmode,
          Database.isTransposed_eq harity transpose]
        exact (database_bind hdb _).symm ▸ hserved
      · obtain rfl := ok_unique hmode hplain
        obtain ⟨-, m', hget, -⟩ := matrix_ok.1 hasked
        have hthere : db.relations.contains ⟨mode.functor, 2⟩ := by simp [Dictionary.contains, hget]
        cases he.symm.trans (guarded_ok.2 ⟨hthere, matrix_ok.2 ⟨rfl, m', hget, rfl⟩⟩)
  · rw [run, nameRelation, decide_eq_false harity]
    exact .failed _ fun _ m hasked => harity (matrix_ok.1 hasked).1

theorem served (hdb : t.2.1.database = some db) : ∀ r : NameRequest, Served db r t (r.run t)
  | .ones type => by
    rw [run, database_bind hdb]
    exact served_nameRow rfl rfl rfl fun m hm => ⟨m, hm⟩
  | .zeros type => by
    rw [run, database_bind hdb]
    exact served_nameRow rfl rfl rfl fun m hm => ⟨m, hm⟩
  | .entity symbol type => by
    rw [run, nameEntity, database_bind hdb]
    exact served_nameRow rfl rfl rfl fun m hm => ⟨m, hm⟩
  | .vector mode => served_vector hdb mode
  | .relation mode transpose => served_relation hdb mode transpose

/-- Each handle was registered for one of the requests. -/
structure Remembers (db : Database α) (seen : List NameRequest)
    (t : Deriving.State α) : Prop where
  database : t.2.1.database = some db
  handles : ∀ key h, t.2.2.handle? key = some h →
    ∃ q ∈ seen, q.key = key ∧ q.stored db = .ok h.value

theorem Remembers.step (h : Remembers db seen t) (r : NameRequest) :
    Remembers db (seen ++ [r]) (ending (r.run t)) := by
  have hold (key : Predicate) (hd : Handle α) (hkey : t.2.2.handle? key = some hd) :
      ∃ q ∈ seen ++ [r], q.key = key ∧ q.stored db = .ok hd.value := by
    obtain ⟨q, hq, hrest⟩ := h.handles key hd hkey
    exact ⟨q, List.mem_append_left _ hq, hrest⟩
  generalize hx : r.run t = x
  have hserved := hx ▸ served h.database r
  cases hserved with
  | failed e => exact ⟨h.database, hold⟩
  | known hd => exact ⟨h.database, hold⟩
  | added hd hfits hnone hkey hstored =>
    refine ⟨h.database, fun key hd' hget => ?_⟩
    rw [ending_ok, adding, Formulary.handle?_append] at hget
    cases hfound : t.2.2.handle? key with
    | some old =>
      rw [hfound] at hget
      obtain rfl := Option.some.inj hget
      exact hold key old hfound
    | none =>
      rw [hfound] at hget
      split at hget
      · next hsame =>
        obtain rfl := Option.some.inj hget
        exact ⟨r, by simp, hkey.symm.trans hsame, hstored⟩
      · cases hget

theorem Remembers.after (h : Remembers db seen t) (rs : List NameRequest) :
    Remembers db (seen ++ rs) (after rs t) := by
  induction rs generalizing seen t with
  | nil => rwa [List.append_nil]
  | cons r rs ih =>
    have hrest := ih (h.step r)
    rwa [List.append_assoc] at hrest

/-- What is under the key of a request is what it asks for, but for fixed rows. -/
theorem asked_of_stored {q : NameRequest} (hfits : r.Fits db) (hplain : r.IsPlain)
    (hkey : q.key = r.key) (hrow : r.key.arity = 0 → q.asked db = r.asked db)
    (hq : q.stored db = .ok m) : r.asked db = .ok (if r.turned then m.transpose else m) := by
  cases r with
  | vector mode =>
    cases q with
    | vector mode' =>
      have hfunctor : mode'.functor = mode.functor := congrArg Predicate.functor hkey
      have hget := (vector_ok.1 hq).2
      exact vector_ok.2 ⟨hfits, hfunctor ▸ hget⟩
    | _ => simp [key] at hkey
  | relation mode transpose =>
    cases q with
    | relation mode' transpose' =>
      have hfunctor : mode'.functor = mode.functor := congrArg Predicate.functor hkey
      obtain ⟨straight, hstraight, hm⟩ := then_ok.1 hq
      rw [hfunctor] at hstraight
      obtain rfl := ok_unique hstraight hplain
      obtain ⟨-, m', hget, hm'⟩ := matrix_ok.1 hm
      obtain rfl : m = m' := hm'
      exact matrix_ok.2 ⟨hfits, m, hget, rfl⟩
    | _ => simp [key] at hkey
  | _ =>
    have hasked := hrow rfl
    cases q with
    | vector mode => simp [key] at hkey
    | relation mode transpose => simp [key] at hkey
    | _ => exact hasked.symm.trans hq

end NameRequest

open NameRequest

/-- **Coherence of handles.** After any requests, a request succeeds exactly if the database has
what is asked for, and that is the value of what it returns, if relations have readable names and
earlier rows of the same name were asked for with the same type. -/
theorem nameRequest_coherent [Scalar α] {db : Database α} {t : World α × (Model α × Formulary α)}
    (hdb : t.2.1.database = some db) (hnew : t.2.2.handles = []) (rs : List NameRequest)
    (r : NameRequest) (hplain : r.IsPlain)
    (hrows : ∀ q ∈ rs, q.key = r.key → r.key.arity = 0 → q.asked db = r.asked db) (m : Matrix α) :
    r.asked db = .ok m ↔
      ∃ e t', r.run (after rs t) = .ok e t' ∧ t'.2.2.registered e = some m := by
  have hstart : Remembers db [] t := ⟨hdb, by simp [Formulary.handle?, hnew]⟩
  have hpast := hstart.after rs
  generalize hx : r.run (after rs t) = x
  have hserved := hx ▸ served hpast.database r
  cases hserved with
  | failed e hnone =>
    refine ⟨fun h => absurd h (hnone hplain m), ?_⟩
    rintro ⟨e, t', h, -⟩
    cases h
  | known h hfits hget =>
    obtain ⟨q, hq, hkey, hstored⟩ := hpast.handles _ h hget
    have hasked := asked_of_stored hfits hplain hkey (hrows q hq hkey) hstored
    rw [exists_ok_registered (registered_returned hget h.name), hasked, Except.ok.injEq]
  | added h hfits hnone hkey hstored =>
    have hasked := asked_of_stored hfits hplain rfl (fun _ => rfl) hstored
    have hget : (adding (after rs t) h).2.2.handle? r.key = some h := by
      rw [adding, Formulary.handle?_append, hnone, if_pos hkey, Option.none_or]
    rw [exists_ok_registered (registered_returned hget h.name), hasked, Except.ok.injEq]

/-- A database of one relation over three entities. -/
def someRelation : Database ℚ where
  schema := default
  relations := ⟨[(⟨"q", 2⟩, .matrix ⟨3, #[[(1, 1)], [], [(0, 2)]]⟩)]⟩

theorem nameRequest_coherent_someRelation :
    ∃ e t', (NameRequest.relation (.inputOutput "q") true).run
        (after [.relation (.inputOutput "q") false, .vector (.inputOutput "q")]
          (({ settings := {} } : World ℚ), (({ program := default, database := some someRelation } : Model ℚ), {}))) = .ok e t' ∧
      t'.2.2.registered e = some (Matrix.transpose ⟨3, #[[(1, 1)], [], [(0, 2)]]⟩) := by
  have hplain : Mode.parse ("q" ++ "(i,o)") = .ok (.inputOutput "q") := by
    with_unfolding_all rfl
  refine (@nameRequest_coherent ℚ _ someRelation _ rfl rfl _
    (.relation (.inputOutput "q") true) hplain ?_ _).1 rfl
  intro q _ _ h
  exact absurd h (by decide)

end BeliefLogic
