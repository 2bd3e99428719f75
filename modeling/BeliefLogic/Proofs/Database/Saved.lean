import BeliefLogic.Proofs.Database.Facts
import BeliefLogic.Proofs.Database.Places
import BeliefLogic.Proofs.Files

/-!
# Saved databases

What is read back has the schema and the matrices of what was loaded, but no marks of parameters.
-/

namespace BeliefLogic

open Outcome List Dictionary Text Files

variable {α : Type} {directory : String} {fs : Files α} {p : Predicate} {x : Unit}

/-- What holds of a database into which facts were read. -/
structure Database.Sound (db : Database α) : Prop where
  schema : db.schema.Sound
  keys : db.relations.keys.Nodup
  matrices : ∀ e ∈ db.relations.entries, IsSmallArity e.1.arity ∧
    ∃ m : Matrix α, e.2 = .matrix m ∧ ∀ i, Matrix.Increasing (m.row i)
  pending : ∀ p ∈ db.pending.keys, IsSmallArity p.arity

theorem Database.sound_ofSchema {s : Schema} (h : s.Sound) :
    (Database.ofSchema s : Database α).Sound :=
  ⟨h, nodup_nil, fun _ he => absurd he not_mem_nil, fun _ hp => absurd hp not_mem_nil⟩

section Loading

variable {db : Database α}

theorem Database.Sound.keepAt {s : Schema} {f : Fact α} {i j : ℕ} (h : db.Sound)
    (hplace : db.schema.Enters f i j s) : ({ db with schema := s }.keepAt f i j).Sound := by
  refine ⟨hplace.keeps (fun hs h => h.intern hs) h.schema, h.keys, h.matrices, fun p hp => ?_⟩
  rcases mem_keys_put hp with hp | rfl
  · exact h.pending p hp
  · rcases f.predicate_arity with harity | harity <;> rw [harity]
    · exact isSmallArity_two
    · exact isSmallArity_one

variable [Scalar α]

/-- Reading lines keeps a database sound. -/
theorem Database.Loads.sound {c : Settings α} {d : Database α} {lines : List String}
    (h : db.Loads c lines d) (hdb : db.Sound) : d.Sound := by
  induction h with
  | nil => exact hdb
  | concat _ _ htakes ih =>
    cases htakes with
    | nothing => exact ih
    | mark p =>
      obtain ⟨_, _, hmark⟩ := Database.markParam_eq (α := α) _ p
      exact hmark ▸ ⟨ih.schema, ih.keys, ih.matrices, ih.pending⟩
    | types _ hstart h =>
      refine ⟨(Run.sound_declareTypes h).2 ?_, ih.keys, ih.matrices, ih.pending⟩
      rcases hstart with hstart | ⟨-, rfl⟩
      · exact hstart ▸ ih.schema
      · exact Typing.sound_empty
    | fact _ _ hplace => exact ih.keepAt hplace

namespace Run

theorem completeFacts_sound {w : World α} {r : World α × Database α} (hdb : db.Sound)
    (h : completeFacts (w, db) = .ok x r) : r.1 = w ∧ r.2.Sound := by
  have hmade := completeFacts_ok (I := fun _ d => d.Sound)
    (fun done e rest heq d shape m hd _ hm => ?_) hdb h
  · obtain ⟨d, hd, -, rfl⟩ := hmade
    exact ⟨rfl, hd.schema, hd.keys, hd.matrices, fun _ hp => absurd hp not_mem_nil⟩
  · refine ⟨hd.schema, nodup_keys_put hd.keys e.1 _, fun e' he' => ?_, hd.pending⟩
    rcases mem_entries_put he' with he' | rfl
    · exact hd.matrices e' he'
    · exact ⟨hdb.pending e.1 (mem_map_of_mem (by rw [heq]; simp)), m, rfl,
        Matrix.increasing_ofWeights hm⟩

/-- Reading files of facts left them alone and made a sound database. -/
theorem loadFacts_ok {σ : Type} {paths : String} {w w' : World α} {s s' : σ}
    (h : loadFacts paths .emptyUntyped (w, s) = .ok db (w', s')) :
    w'.files = w.files ∧ s' = s ∧ db.Sound ∧
      ∀ path ∈ Text.fields ':' paths, ∃ lines, w.files.lines path = .ok lines := by
  simp only [loadFacts, within, bind_ok] at h
  obtain ⟨b, u, hb, rfl, rfl⟩ := h
  split at hb
  · next x v hload =>
    obtain ⟨rfl, hv⟩ := EStateM.Result.ok.inj hb
    obtain ⟨rfl, rfl⟩ := Prod.mk.inj hv
    obtain ⟨texts, v', d, htexts, hcalm, hloads, hcomplete⟩ := addFactFiles_ok hload
    have hstart : (Database.ofSchema .emptyUntyped : Database α).Sound :=
      Database.sound_ofSchema Symbols.isStarted_entities
    obtain ⟨hworld, hsound⟩ := completeFacts_sound (hloads.sound hstart) hcomplete
    refine ⟨(congrArg World.files hworld).trans hcalm.2, rfl, hsound, fun path hpath => ?_⟩
    obtain ⟨lines, -, hlines⟩ := exists_of_forall₂ (except_mapM_ok htexts) path hpath
    exact ⟨lines, hlines⟩
  · cases hb

end Run

end Loading

/-- Names of a database that can be saved and read back. -/
structure Database.IsSavable (db : Database α) : Prop where
  schema : db.schema.IsWritable
  narrow : ∀ p ∈ db.relations.keys, Text.isNarrow (Text.quoted p.functor) = true
  named : ∀ p ∈ db.relations.keys, p.functor ≠ "_"

/-- A relation is told by the name under which its matrix is saved. -/
theorem Database.ofSavedName_text (h : IsSmallArity p.arity) : Database.ofSavedName p.text = p := by
  obtain ⟨hread, ⟨c, hc, hslash⟩, -⟩ := integer_of_le_two h
  have htext : p.text.toList = p.functor.toList ++ ['/', c] := by
    rw [Predicate.text, hc]
    simp
  have hdigits : (p.text.toList.reverse.takeWhile (· != '/')).reverse = [c] := by
    rw [htext]
    simp [hslash]
  have hfunctor : p.text.toList.take (p.text.length - 1 - 1) = p.functor.toList := by
    have hlength : p.text.length = p.functor.toList.length + 2 := by
      rw [← String.length_toList, htext]
      simp
    rw [hlength, htext]
    exact take_left
  unfold Database.ofSavedName
  simp only [hdigits, length_singleton, hfunctor]
  have hinteger : String.ofList [c] = Text.integer p.arity := by
    rw [hc]
    simp
  rw [hinteger, hread, String.ofList_toList]
  rfl

theorem Matrix.mapRows_sortRow {m : Matrix α} (h : ∀ i, Matrix.Increasing (m.row i)) :
    m.mapRows Matrix.sortRow = m := by
  have hrows : m.rows.map Matrix.sortRow = m.rows := by
    refine Array.ext (by simp) fun i hi _ => ?_
    rw [Array.size_map] at hi
    have hrow : m.row i = m.rows[i] := by
      rw [Matrix.row, Array.getElem?_eq_getElem hi]
      rfl
    rw [Array.getElem_map, ← hrow]
    exact mergeSort_of_pairwise ((h i).imp fun hab => by simpa using hab.le)
  rw [Matrix.mapRows, hrows]

/-- The relations of a database into which facts were read are matrices. -/
theorem Database.Sound.exists_matrices {db : Database α} (h : db.Sound) :
    ∃ ms : Dictionary Predicate (Matrix α), db.relations = ms.mapValues .matrix := by
  have hentries : db.relations.entries ∈ Set.range (map fun e : Predicate × Matrix α =>
      (e.1, Operand.matrix e.2)) := by
    rw [Set.range_list_map]
    intro e he
    obtain ⟨-, m, hm, -⟩ := h.matrices e he
    exact ⟨(e.1, m), Prod.ext rfl hm.symm⟩
  obtain ⟨es, hes⟩ := hentries
  exact ⟨⟨es⟩, congrArg Dictionary.mk hes.symm⟩

theorem Dictionary.ofList_entries {κ ν : Type} [BEq κ] [LawfulBEq κ] {d : Dictionary κ ν}
    (h : d.keys.Nodup) : Dictionary.ofList d.entries = d := by
  have key : ∀ (es : List (κ × ν)) (d : Dictionary κ ν), ((d.entries ++ es).map (·.1)).Nodup →
      es.foldl (fun d e => d.put e.1 e.2) d = ⟨d.entries ++ es⟩ := by
    intro es
    induction es with
    | nil => simp
    | cons e es ih =>
      intro d hnodup
      rw [foldl_cons, (put_of_nodup hnodup).2, ih _ (by simpa using hnodup)]
      simp
  exact key d.entries Dictionary.empty h

/-- A database with the schema and relations of another one, unmarked. -/
structure Database.Restores (db db' : Database α) : Prop where
  schema : db.schema.Agrees db'.schema
  relations : db'.relations = db.relations
  params : db'.params = []

namespace Run

section Saving

variable {σ : Type} {db : Database α} {ms : Dictionary Predicate (Matrix α)} {t : World α × σ}
variable {u : World α × σ}

def savedMatrices (ms : Dictionary Predicate (Matrix α)) : Content α :=
  .matrices (ms.entries.map fun e => (e.1.text, e.2))

theorem setFiles_ok :
    (setFiles fs : Run α σ Unit) t = .ok x u ↔ ({ t.1 with files := fs }, t.2) = u := by
  simp [setFiles]

theorem files_ok :
    (files : Run α σ (Files α)) t = .ok fs u ↔ t.1.files = fs ∧ t = u := by
  simp [files, and_comm]

/-- All matrices are saved if all names can be. -/
theorem saveRelations_run [Scalar α] (hms : db.relations = ms.mapValues .matrix) (hdb : db.IsSavable)
    {path : String} (hwrite : t.1.files.write path (savedMatrices ms) = .ok fs) :
    saveRelations db path .all t = .ok () ({ t.1 with files := fs }, t.2) := by
  have hkey : ∀ e ∈ ms.entries, e.1 ∈ db.relations.keys := by
    intro e he
    rw [hms, Dictionary.keys, Dictionary.mapValues, map_map]
    exact mem_map_of_mem he
  set items : List (Option String × Matrix α) := ms.entries.map fun e => (some e.1.text, e.2)
    with hlisted
  have hitems : ((db.selected .all).filter fun e => e.1.functor != "_").filterMap
      (fun e => e.2.matrix?.map fun m => (Database.savedName? e.1, m)) = items := by
    have hfilter : (db.selected .all).filter (fun e => e.1.functor != "_") =
        ms.entries.map fun e => (e.1, Operand.matrix e.2) := by
      rw [Database.selected, hms]
      refine filter_eq_self.2 fun e he => ?_
      obtain ⟨e', he', rfl⟩ := mem_map.1 he
      simpa using hdb.named e'.1 (hkey e' he')
    refine (congrArg _ hfilter).trans ?_
    rw [filterMap_map, hlisted, ← filterMap_eq_map]
    refine filterMap_congr fun e he => ?_
    simp [Database.savedName?, hdb.narrow e.1 (hkey e he)]
  have hnamed : items.takeWhile (·.1.isSome) = items := by
    rw [takeWhile_eq_self_iff, forall_mem_map]
    exact fun _ _ => rfl
  have hwrite : t.1.files.write path
      (.matrices ((items.takeWhile (·.1.isSome)).map fun e => (e.1.getD "", e.2))) = .ok fs := by
    rw [hnamed, map_map]
    exact hwrite
  have hsave : saveRelations db path .all = (saveMatrices path items : Run α σ Unit) :=
    congrArg (saveMatrices path) hitems
  rw [hsave]
  refine bind_ok.2 ⟨t.1.files, t, files_ok.2 ⟨rfl, rfl⟩, ?_⟩
  simp only [hwrite]
  rw [if_neg (by simp [hnamed])]
  rfl

theorem loadRelations_run (hkeys : ms.keys.Nodup)
    (hms : ∀ e ∈ ms.entries, IsSmallArity e.1.arity ∧ ∀ i, Matrix.Increasing (e.2.row i))
    (hcontent : t.1.files.content (Files.join directory "db.mat") = .ok (savedMatrices ms)) :
    loadRelations (Files.join directory "db.mat") t = .ok ms t := by
  have hends : Text.endsWith ".mat" (Files.join directory "db.mat") = true := by
    have hjoin : ∃ before, Files.join directory "db.mat" = before ++ "db.mat" := by
      unfold Files.join
      split
      · exact ⟨directory, rfl⟩
      · exact ⟨directory ++ "/", rfl⟩
    obtain ⟨before, hbefore⟩ := hjoin
    have hname : "db.mat" = "db" ++ ".mat" := by decide
    rw [hbefore, hname, ← String.append_assoc]
    exact endsWith_append (before ++ "db") ".mat"
  have hload : loadMatrices (Files.join directory "db.mat") t =
      .ok (ms.entries.map fun e => (e.1.text, e.2)) t := by
    refine bind_ok.2 ⟨t.1.files, t, files_ok.2 ⟨rfl, rfl⟩, ?_⟩
    simp only [hends, Bool.or_true]
    refine bind_ok.2 ⟨_, t, lift_ok.2 ⟨hcontent, rfl⟩, pure_ok.2 ⟨?_, rfl⟩⟩
    rw [map_map]
    refine map_congr_left fun e he => ?_
    simp [Matrix.mapRows_sortRow (hms e he).2]
  refine bind_ok.2 ⟨_, t, hload, pure_ok.2 ⟨?_, rfl⟩⟩
  have hnames : (ms.entries.map fun e => (e.1.text, e.2)).map
      (fun e => (Database.ofSavedName e.1, e.2)) = ms.entries := by
    rw [map_map]
    refine (map_congr_left fun e he => ?_).trans (map_id ms.entries)
    simp [Database.ofSavedName_text (hms e he).1]
  exact (congrArg Dictionary.ofList hnames).trans (ofList_entries hkeys)

/-- Relations without declared types are reported, and none is refused. -/
theorem exists_checkTyping (s : Schema) (ps : List Predicate) (t : World α × σ) :
    ∃ u, (checkTyping s ps false : Run α σ Unit) t = .ok () u := by
  cases s with
  | untyped entities => exact ⟨t, rfl⟩
  | typed typing =>
    simp only [checkTyping, Bool.false_eq_true, if_false]
    refine (exists_forIn (I := fun _ _ => True) (fun _ p _ _ v _ => ?_) trivial).imp
      fun u hu => bind_ok.2 ⟨_, u, hu.1, rfl⟩
    refine (exists_forIn (I := fun _ _ => True) (fun _ i _ _ v _ => ?_) trivial).imp
      fun u hu => ⟨bind_ok.2 ⟨_, u, hu.1, rfl⟩, trivial⟩
    -- A missing type is only warned of.
    split_ifs
    · exact ⟨_, bind_ok.2 ⟨_, _, rfl, rfl⟩, trivial⟩
    · exact ⟨v, rfl, trivial⟩

theorem isPart_names : Files.IsPart "symbols.txt" ∧ Files.IsPart "typed-symbols.txt" ∧
    Files.IsPart "db.mat" := by
  refine ⟨?_, ?_, ?_⟩ <;>
    exact ⟨by decide, by decide, by decide, by decide, by decide, by decide⟩

structure HoldsSaved (fs : Files α) (directory : String) (db : Database α) : Prop where
  typeless : fs.isFile (Files.join directory "symbols.txt") = db.schema.isTypeless
  schema : fs.content (schemaPath db.schema directory) = .ok (.text db.schema.text)
  relations : ∃ ms : Dictionary Predicate (Matrix α), db.relations = ms.mapValues .matrix ∧
    fs.content (Files.join directory "db.mat") = .ok (savedMatrices ms)

/-- A database is saved in a directory that is made for it. -/
theorem exists_saveDatabase [Scalar α] (hdb : db.Sound) (hnames : db.IsSavable)
    (hvacant : t.1.files.IsVacant directory) :
    ∃ fs d, saveDatabase db directory t = .ok () ({ t.1 with files := fs }, t.2) ∧
      fs.Leads directory d ∧ fs.directories.any (·.1 == d) = true ∧
      t.1.files.Extends fs ∧ (t.1.files.Timed → fs.Timed) ∧ HoldsSaved fs directory db := by
  obtain ⟨ms, hms⟩ := hdb.exists_matrices
  obtain ⟨fs1, d, hensure, hleads1, hmade, hempty⟩ := hvacant.made
  obtain ⟨hextends₁, htimed1⟩ := ensureDirectory_ok hensure
  obtain ⟨huntyped, htyped, hmatrices⟩ := isPart_names
  set name := if db.schema.isTypeless then "symbols.txt" else "typed-symbols.txt" with hname
  have hpart : Files.IsPart name := by
    rw [hname]
    split
    · exact huntyped
    · exact htyped
  have hne : name ≠ "db.mat" := by
    rw [hname]
    split <;> decide
  have hplaces : Files.join d name ≠ Files.join d "db.mat" := fun h => hne (join_inj h)
  -- First the schema is written, and then the matrices.
  have hwrite2 := hleads1.write hpart (hempty name hpart) (.text db.schema.text)
  set fs2 := fs1.put (Files.join d name) (.text db.schema.text) with hfs2
  have hextends₂ : fs1.Extends fs2 := extends_put (hempty name hpart)
  have hleads2 := hleads1.of_extends hextends₂
  have hfree2 : fs2.standing (Files.join d "db.mat") = .nothing := by
    rw [standing_put (hempty name hpart), if_neg hplaces, hempty _ hmatrices]
  have hwrite3 := hleads2.write hmatrices hfree2 (savedMatrices ms)
  set fs3 := fs2.put (Files.join d "db.mat") (savedMatrices ms) with hfs3
  have hextends₃ : fs2.Extends fs3 := extends_put hfree2
  have hleads3 := hleads2.of_extends hextends₃
  refine ⟨fs3, d, ?_, hleads3, ?_, hextends₁.trans (hextends₂.trans hextends₃), fun ht =>
    timed_put (timed_put (htimed1 ht) _ _) _ _, ?_, ?_, ms, hms, ?_⟩
  · refine bind_ok.2 ⟨t.1.files, t, files_ok.2 ⟨rfl, rfl⟩, bind_ok.2 ⟨fs1, t,
      lift_ok.2 ⟨hensure, rfl⟩, bind_ok.2 ⟨(), _, setFiles_ok.2 rfl, ?_⟩⟩⟩
    refine bind_ok.2 ⟨(), ({ t.1 with files := fs2 }, t.2), ?_,
      saveRelations_run hms hnames hwrite3⟩
    exact bind_ok.2 ⟨fs1, _, files_ok.2 ⟨rfl, rfl⟩, bind_ok.2 ⟨fs2, _, lift_ok.2 ⟨hwrite2, rfl⟩,
      setFiles_ok.2 rfl⟩⟩
  · rw [any_directories_put, any_directories_put, hmade]
  · rw [hleads3.isFile huntyped, standing_put hfree2,
      if_neg fun h => absurd (join_inj h) (by decide), standing_put (hempty name hpart)]
    cases htypeless : db.schema.isTypeless with
    | true =>
      have : name = "symbols.txt" := by rw [hname, htypeless]; rfl
      rw [this, if_pos rfl]
      rfl
    | false =>
      have : name = "typed-symbols.txt" := by rw [hname, htypeless]; rfl
      rw [this, if_neg fun h => absurd (join_inj h) (by decide), hempty _ huntyped]
      rfl
  · refine hleads3.content hpart ?_
    rw [find_put, if_neg (Ne.symm hplaces), find_put, if_pos rfl]
    rfl
  · refine hleads3.content hmatrices ?_
    rw [find_put, if_pos rfl]
    rfl

theorem exists_loadSchema (hsound : db.schema.Sound) (hnames : db.schema.IsWritable)
    (hsaved : HoldsSaved t.1.files directory db) :
    ∃ s', loadSchema directory t = .ok s' t ∧ db.schema.Agrees s' := by
  have hfile := hsaved.typeless
  have hread := hsaved.schema
  have hlines {path : String} {xs : List String} (hxs : ∀ x ∈ xs, Text.IsLine x)
      (hcontent : t.1.files.content path = .ok (.text (Text.unlines xs))) :
      (fileLines path : Run α σ _) t = .ok (xs.map (· ++ "\n")) t := by
    refine bind_ok.2 ⟨t.1.files, t, files_ok.2 ⟨rfl, rfl⟩, lift_ok.2 ⟨?_, rfl⟩⟩
    refine then_ok.2 ⟨_, then_ok.2 ⟨_, hcontent, rfl⟩, ?_⟩
    rw [fileLines_unlines hxs]
    rfl
  cases hschema : db.schema with
  | untyped s =>
    rw [hschema] at hsound hnames hfile hread
    obtain ⟨s', hs', hagrees⟩ := Schema.readUntyped_toList hsound hnames
    refine ⟨.untyped s', ?_, hagrees⟩
    refine bind_ok.2 ⟨t.1.files, t, files_ok.2 ⟨rfl, rfl⟩, ?_⟩
    rw [hfile]
    exact bind_ok.2 ⟨_, t, hlines hnames hread, lift_ok.2 ⟨hs', rfl⟩⟩
  | typed typing =>
    rw [hschema] at hsound hnames hfile hread
    obtain ⟨hxs, typing', ht', hagrees⟩ := Schema.readTyped_typedLines hsound hnames
    refine ⟨.typed typing', ?_, hagrees⟩
    rw [Schema.text_typed] at hread
    refine bind_ok.2 ⟨t.1.files, t, files_ok.2 ⟨rfl, rfl⟩, ?_⟩
    rw [hfile]
    exact bind_ok.2 ⟨_, t, hlines hxs hread, lift_ok.2 ⟨ht', rfl⟩⟩

/-- A saved database is read back, without its parameters. -/
theorem exists_loadDatabase (hdb : db.Sound) (hnames : db.schema.IsWritable)
    (hsaved : HoldsSaved t.1.files directory db) :
    ∃ db' u, loadDatabase directory t = .ok db' u ∧ db.Restores db' := by
  obtain ⟨s', hs', hagrees⟩ := exists_loadSchema hdb.schema hnames hsaved
  obtain ⟨ms, hms, hcontent⟩ := hsaved.relations
  have hkeys : ms.keys = db.relations.keys := by
    rw [hms]
    simp [Dictionary.keys, Dictionary.mapValues]
  have hall : ∀ e ∈ ms.entries, IsSmallArity e.1.arity ∧ ∀ i, Matrix.Increasing (e.2.row i) := by
    intro e he
    have hmem : (e.1, Operand.matrix e.2) ∈ db.relations.entries := by
      rw [hms]
      exact mem_map_of_mem he
    obtain ⟨harity, m, hm, hincreasing⟩ := hdb.matrices _ hmem
    obtain rfl := Operand.matrix.inj hm
    exact ⟨harity, hincreasing⟩
  have hload := loadRelations_run (hkeys ▸ hdb.keys) hall hcontent
  obtain ⟨u, hu⟩ := exists_checkTyping s' ms.keys t
  refine ⟨_, u, bind_ok.2 ⟨s', t, hs', bind_ok.2 ⟨ms, t, hload, bind_ok.2 ⟨(), u, hu, rfl⟩⟩⟩,
    hagrees, hms.symm, rfl⟩

/-- The files in a directory are the same in two stores. -/
def SameFilesIn (directory : String) (fs fs' : Files α) : Prop :=
  ∀ name, fs'.isFile (Files.join directory name) = fs.isFile (Files.join directory name) ∧
    fs'.content (Files.join directory name) = fs.content (Files.join directory name)

theorem HoldsSaved.of_same {fs' : Files α} (h : HoldsSaved fs directory db)
    (hsame : SameFilesIn directory fs fs') : HoldsSaved fs' directory db := by
  obtain ⟨ms, hms, hcontent⟩ := h.relations
  exact ⟨(hsame _).1.trans h.typeless, (hsame _).2.trans h.schema, ms, hms,
    (hsame _).2.trans hcontent⟩

/-- A directory just marked is as new as everything else. -/
theorem isStale_touch {d : String} {sources : List String} (hleads : fs.Leads directory d)
    (hmade : fs.directories.any (·.1 == d) = true) (htimed : fs.Timed)
    (hsources : ∀ path ∈ sources, ∃ Q, fs.place path = .ok Q ∧ fs.standing Q ≠ .nothing)
    (ht : t.1.files = fs.touch directory) : isStale directory sources t = .ok false t := by
  have hextends := fs.extends_touch directory
  have hexist : (fs.touch directory).exist directory = true := by
    have hleads' := hleads.of_extends hextends
    rw [Files.exist, Files.found, hleads'.place]
    simp [hleads'.standing]
  obtain ⟨stamps, hstamps, hall⟩ : ∃ stamps, sources.mapM (fs.touch directory).stamp = .ok stamps ∧
      Forall₂ (fun _ n => n ≤ (fs.touch directory).clock) sources stamps := by
    refine exists_except_mapM fun path hpath => ?_
    obtain ⟨Q, hQ, hs⟩ := hsources path hpath
    obtain ⟨n, hn, hle⟩ := exists_stamp (hextends.place hQ hs) (by rwa [hextends Q hs])
    exact ⟨n, hn, hle (timed_touch htimed directory)⟩
  refine bind_ok.2 ⟨_, t, files_ok.2 ⟨ht, rfl⟩, ?_⟩
  simp only [hexist]
  refine bind_ok.2 ⟨stamps, t, lift_ok.2 ⟨hstamps, rfl⟩, bind_ok.2 ⟨_, t,
    lift_ok.2 ⟨stamp_touch hleads.place hmade, rfl⟩, pure_ok.2 ⟨?_, rfl⟩⟩⟩
  rw [any_eq_false]
  intro n hn
  obtain ⟨_, -, hle⟩ := exists_of_forall₂ hall.flip n hn
  simpa using hle

variable [Scalar α]

/-- Facts that are loaded through a new directory are saved there and read back while it is newer,
with the same schema and matrices if names can be written. Marks of parameters are lost. -/
theorem cachedFacts_again {σ' : Type} {directory paths : String} {w : World α} {s : σ}
    {t : World α × σ} (hload : loadFacts paths .emptyUntyped (w, s) = .ok db t)
    (htimed : w.files.Timed) (hvacant : w.files.IsVacant directory) (hnames : db.IsSavable) :
    ∃ u, cachedFacts directory paths .emptyUntyped (w, s) = .ok db u ∧
      isStale directory (Text.fields ':' paths) u = .ok false u ∧
      ∀ v : World α × σ', SameFilesIn directory u.1.files v.1.files →
        isStale directory (Text.fields ':' paths) v = .ok false v →
        ∃ db' v', cachedFacts directory paths .emptyUntyped v = .ok db' v' ∧ db.Restores db' := by
  obtain ⟨w', s'⟩ := t
  obtain ⟨hfiles, rfl, hsound, hsources⟩ := loadFacts_ok hload
  obtain ⟨fs, d, hsave, hleads, hmade, hextends, htimed', hsaved⟩ :=
    exists_saveDatabase (t := (w', s')) hsound hnames (hfiles ▸ hvacant)
  rw [hfiles] at hextends htimed'
  set u : World α × σ := ({ w' with files := fs.touch directory }, s') with hu
  have hstale : isStale directory (Text.fields ':' paths) (w, s') = .ok true (w, s') := by
    refine bind_ok.2 ⟨w.files, (w, s'), files_ok.2 ⟨rfl, rfl⟩, ?_⟩
    rw [hvacant.missing]
    rfl
  refine ⟨u, ?_, ?_, fun v hsame hfresh => ?_⟩
  · refine bind_ok.2 ⟨true, _, hstale, ?_⟩
    exact bind_ok.2 ⟨db, _, hload, bind_ok.2 ⟨(), _, hsave, bind_ok.2 ⟨fs, _, files_ok.2 ⟨rfl, rfl⟩,
      bind_ok.2 ⟨(), u, setFiles_ok.2 rfl, rfl⟩⟩⟩⟩
  · refine isStale_touch hleads hmade (htimed' htimed) (fun path hpath => ?_) rfl
    obtain ⟨lines, hlines⟩ := hsources path hpath
    obtain ⟨Q, hQ, hs⟩ := exists_place_of_lines hlines
    exact ⟨Q, hextends.place hQ hs, by rwa [hextends Q hs]⟩
  · have htouch : SameFilesIn directory fs (fs.touch directory) := fun name =>
      ⟨isFile_touch fs directory _, content_touch fs directory _⟩
    obtain ⟨db', v', hv', hrestores⟩ :=
      exists_loadDatabase hsound hnames.schema ((hsaved.of_same htouch).of_same hsame)
    exact ⟨db', v', bind_ok.2 ⟨false, v, hfresh, hv'⟩, hrestores⟩

end Saving

end Run

namespace Sample

open Run

/-- A file of facts that mark a relation as a parameter. -/
def edgeFile : World ℚ where
  settings := {}
  files :=
    { entries := [("facts.cfacts", .text "# :- trainable(q,2)\nq\ta\tb\n", 1)], clock := 1 }

def edgeFileLines : List String := ["# :- trainable(q,2)\n", "q\ta\tb\n"]

theorem lines_edgeFile : edgeFile.files.lines "facts.cfacts" = .ok edgeFileLines := by
  with_unfolding_all rfl

theorem timed_edgeFile : edgeFile.files.Timed := by
  refine ⟨fun e he => ?_, fun e he => absurd he not_mem_nil⟩
  rw [mem_singleton.1 he]
  exact le_rfl

/-- No file is in a directory that is made there. -/
theorem isVacant_edgeFile : edgeFile.files.IsVacant "cache.db" := by
  refine ⟨by decide +kernel, edgeFile.files.makePlace "cache.db", "cache.db", ?_, ⟨?_, ?_⟩, ?_, ?_⟩
  · with_unfolding_all rfl
  · with_unfolding_all rfl
  · with_unfolding_all rfl
  · with_unfolding_all rfl
  · intro name hname
    set place := Files.join "cache.db" name with hplace
    have hchars : place.toList = "cache.db".toList ++ '/' :: name.toList := by
      rw [toList_join, if_neg (by decide)]
      simp
    have hne (other : String) (hother : other.toList.take 9 ≠ "cache.db/".toList) :
        place ≠ other := by
      rintro rfl
      refine hother ?_
      rw [hchars]
      rfl
    have hfields : (Text.fields '/' place).all (· == "..") = false := by
      rw [Text.fields, hchars]
      exact Bool.and_eq_false_iff.2 (.inl (by decide))
    have hentries : (edgeFile.files.makePlace "cache.db").entries.any (·.1 == place) = false := by
      simpa [Files.makePlace, edgeFile] using (hne "facts.cfacts" (by decide)).symm
    have hdirectories :
        (edgeFile.files.makePlace "cache.db").directories.any (·.1 == place) = false := by
      simpa [Files.makePlace, edgeFile] using (hne "cache.db" (by decide)).symm
    rw [Files.standing, hfields]
    rfl

theorem exists_loadFacts_edgeFile : ∃ (db : Database ℚ) (t : World ℚ × Unit),
    loadFacts "facts.cfacts" .emptyUntyped (edgeFile, ()) = .ok db t ∧ db.IsSavable := by
  have htypes : ∀ line ∈ edgeFileLines, ¬ FactLine.DeclaresTypes ℚ line := by
    have hnot {line : String} {l : FactLine ℚ} (hl : ∀ g, l ≠ .signature g)
        (h : FactLine.classify {} .emptyUntyped "" 0 line = .ok l) : ¬ FactLine.DeclaresTypes ℚ line :=
      fun hdeclares => ((FactLine.classify_ok h).signature.2 hdeclares).elim hl
    refine forall_mem_cons.2 ⟨hnot (l := .trainable ⟨"q", 2⟩) (by simp) (by with_unfolding_all rfl),
      forall_mem_singleton.2 (hnot (l := .binary "q" "a" "b" 1) (by simp) (by with_unfolding_all rfl))⟩
  have hpaths : Text.fields ':' "facts.cfacts" = ["facts.cfacts"] := by decide +kernel
  obtain ⟨w', db, _, hadd, -⟩ := exists_bind_completeFacts (w := edgeFile) (p := ⟨"q", 2⟩)
    (m := keepFactFile "facts.cfacts") (s := .emptyUntyped) (by decide +kernel) (fun _ _ h => by
      obtain ⟨lines, hlines, -, hloads⟩ := keepFactFile_ok h
      exact ok_unique lines_edgeFile hlines ▸ hloads) fun _ => .inr (.of_notDeclares htypes)
  obtain ⟨x, u, hkeep, hcomplete⟩ := bind_ok.1 hadd
  have hfiles : addFactFiles "facts.cfacts" (edgeFile, .ofSchema .emptyUntyped) = .ok () (w', db) := by
    rw [addFactFiles, hpaths]
    exact bind_ok.2 ⟨_, u, bind_ok.2 ⟨_, u, bind_ok.2 ⟨x, u, hkeep, rfl⟩, rfl⟩, hcomplete⟩
  have hload : loadFacts "facts.cfacts" .emptyUntyped (edgeFile, ()) = .ok db (w', ()) :=
    bind_ok.2 ⟨((), db), (w', ()), by simp [within, hfiles], rfl⟩
  refine ⟨db, (w', ()), hload, ?_⟩
  have hlines : (Text.fields ':' "facts.cfacts").mapM edgeFile.files.lines =
      .ok [edgeFileLines] := by
    rw [hpaths, mapM_cons, lines_edgeFile]
    rfl
  have hfacts : Fact.ofLines edgeFile.settings.weightedTuples [edgeFileLines].flatten =
      [(⟨"q", "a", some "b", 1⟩ : Fact ℚ)] := by
    with_unfolding_all rfl
  have hdb := (LoadedFrom.files hlines hload).completes htypes
  have hkeys : ∀ p ∈ db.relations.keys, p = ⟨"q", 2⟩ := by
    intro p hp
    obtain ⟨e, he, rfl⟩ := mem_map.1 hp
    by_contra hne
    have hplaces : Fact.places [(⟨"q", "a", some "b", 1⟩ : Fact ℚ)] e.1 = [] := by
      simp [Fact.places, Fact.predicate, Ne.symm hne]
    have hnone := hdb.absent e.1 (not_not.2 hplaces)
    rw [(mem_entries_iff (loadFacts_ok hload).2.2.1.keys).1 he] at hnone
    cases hnone
  refine ⟨?_, fun p hp => ?_, fun p hp => ?_⟩
  · rw [hdb.schema]
    intro x hx
    rw [Fact.toList_table] at hx
    revert x
    decide +kernel
  · rw [hkeys p hp]
    decide +kernel
  · rw [hkeys p hp]
    decide

end Sample

/-- A file that marks a parameter, loaded twice through a new directory. -/
theorem cachedFacts_again_edgeFile : ∃ (db db' : Database ℚ) (u v : World ℚ × Unit),
    Run.cachedFacts "cache.db" "facts.cfacts" .emptyUntyped (Sample.edgeFile, ()) = .ok db u ∧
      Run.cachedFacts "cache.db" "facts.cfacts" .emptyUntyped u = .ok db' v ∧
      db.Restores db' := by
  obtain ⟨db, t, hload, hnames⟩ := Sample.exists_loadFacts_edgeFile
  obtain ⟨u, hfirst, hfresh, hagain⟩ := Run.cachedFacts_again hload Sample.timed_edgeFile
    Sample.isVacant_edgeFile hnames
  obtain ⟨db', v, hsecond, hrestores⟩ := hagain u (fun _ => ⟨rfl, rfl⟩) hfresh
  exact ⟨db, db', u, v, hfirst, hsecond, hrestores⟩

end BeliefLogic
