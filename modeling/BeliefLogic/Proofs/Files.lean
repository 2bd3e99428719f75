import BeliefLogic.Proofs.Outcome
import BeliefLogic.Proofs.Text

/-!
# Files in a directory

A file is read back as it was written, and writing changes nothing else.
-/

namespace BeliefLogic

open List Text

namespace Files

variable {α : Type} {fs fs' : Files α} {Q here path : String} {parts : List String}

structure IsPart (name : String) : Prop where
  ne_empty : name ≠ ""
  ne_dot : name ≠ "."
  ne_dots : name ≠ ".."
  slash : '/' ∉ name.toList
  null : '\x00' ∉ name.toList
  short : name.utf8ByteSize ≤ longestName

/-- Parts of a path lead to something only from a directory. -/
theorem standing_of_follow {part : String} (h : fs.follow here (part :: parts) = .ok Q)
    (hs : fs.standing Q ≠ .nothing) : fs.standing here = .directory := by
  rw [follow] at h
  cases hstanding : fs.standing here with
  | directory => rfl
  | file => simp [hstanding] at h
  | nothing =>
    simp only [hstanding] at h
    split at h
    · exact absurd (Except.ok.inj h ▸ hstanding) hs
    · cases h

/-- Parts that lead to a directory are followed first. -/
theorem follow_append {d : String} (hd : fs.standing d = .directory)
    (h : fs.follow here parts = .ok d ∨ fs.follow here (parts ++ [""]) = .ok d) (rest : List String) :
    fs.follow here (parts ++ rest) = fs.follow d rest := by
  have hs : fs.standing d ≠ .nothing := by simp [hd]
  induction parts generalizing here with
  | nil =>
    obtain rfl : here = d := by
      rcases h with h | h
      · exact Except.ok.inj h
      · simpa [follow, standing_of_follow h hs] using h
    rfl
  | cons part parts ih =>
    have hhere : fs.standing here = .directory :=
      h.elim (standing_of_follow · hs) (standing_of_follow · hs)
    simp only [cons_append, follow, hhere] at h ⊢
    split_ifs at h ⊢
    · exact ih h
    · exact ih h
    · simp at h
    · exact ih h

theorem follow_part {name d : String} (hn : IsPart name) (hd : fs.standing d = .directory) :
    fs.follow d [name] = .ok (join d name) := by
  simp [follow, hd, hn.ne_empty, hn.ne_dot, hn.ne_dots, not_lt.2 hn.short]

theorem toList_join (d name : String) :
    (join d name).toList = (if d.isEmpty || Text.endsWith "/" d then d.toList
      else d.toList ++ ['/']) ++ name.toList := by
  unfold join
  split <;> simp

theorem join_inj {d name name' : String} (h : join d name = join d name') : name = name' := by
  have := congrArg String.toList h
  rw [toList_join, toList_join] at this
  exact String.toList_inj.1 (append_cancel_left this)

/-- The parts of a path to a name in a directory. -/
theorem fields_join {directory name : String} (hd : directory ≠ "") (hn : IsPart name) :
    ∃ parts, Text.fields '/' (join directory name) = parts ++ [name] ∧
      (Text.fields '/' directory = parts ∨ Text.fields '/' directory = parts ++ [""]) := by
  have hcut := cut_of_notMem hn.slash
  have hempty : directory.isEmpty = false := by simpa using hd
  by_cases hend : Text.endsWith "/" directory = true
  · obtain ⟨cs, hcs⟩ := exists_of_endsWith_singleton (c := '/') hend
    refine ⟨(Text.cut '/' cs).map String.ofList, ?_, .inr ?_⟩
    · rw [Text.fields, toList_join, if_pos (by simp [hend]), hcs, append_assoc,
        singleton_append, cut_append_cons, hcut]
      simp
    · rw [Text.fields, hcs, cut_append_cons]
      simp [Text.cut]
  · refine ⟨Text.fields '/' directory, ?_, .inl rfl⟩
    rw [Text.fields, toList_join, if_neg (by simp [hempty, hend]), append_assoc,
      singleton_append, cut_append_cons, hcut, Text.fields]
    simp

/-- What stands somewhere in some files stands there in others. -/
def Extends (fs fs' : Files α) : Prop := ∀ Q, fs.standing Q ≠ .nothing → fs'.standing Q = fs.standing Q

theorem Extends.refl (fs : Files α) : fs.Extends fs := fun _ _ => rfl

theorem Extends.trans {fs fs'' : Files α} (h : fs.Extends fs') (h' : fs'.Extends fs'') :
    fs.Extends fs'' := fun Q hQ => (h' Q (by rwa [h Q hQ])).trans (h Q hQ)

/-- Parts that lead to something lead to it also where more things are. -/
theorem Extends.follow (h : fs.Extends fs') (hQ : fs.follow here parts = .ok Q)
    (hs : fs.standing Q ≠ .nothing) : fs'.follow here parts = .ok Q := by
  induction parts generalizing here with
  | nil => exact hQ
  | cons part rest ih =>
    have hhere := standing_of_follow hQ hs
    rw [Files.follow] at hQ ⊢
    rw [h here (by simp [hhere])]
    simp only [hhere] at hQ ⊢
    split_ifs at hQ ⊢
    · exact ih hQ
    · exact ih hQ
    · exact ih hQ

theorem Extends.place (h : fs.Extends fs') (hQ : fs.place path = .ok Q)
    (hs : fs.standing Q ≠ .nothing) : fs'.place path = .ok Q := by
  unfold Files.place at hQ ⊢
  split_ifs at hQ ⊢ <;> exact h.follow hQ hs

structure Timed (fs : Files α) : Prop where
  entries : ∀ e ∈ fs.entries, e.2.2 ≤ fs.clock
  directories : ∀ e ∈ fs.directories, e.2 ≤ fs.clock

/-- A path whose lines can be read leads to something. -/
theorem exists_place_of_lines {lines : List String} (h : fs.lines path = .ok lines) :
    ∃ Q, fs.place path = .ok Q ∧ fs.standing Q ≠ .nothing := by
  obtain ⟨text, htext, -⟩ := Outcome.then_ok.1 h
  obtain ⟨c, hc, -⟩ := Outcome.then_ok.1 htext
  obtain ⟨Q, hQ, hc⟩ := Outcome.then_ok.1 hc
  refine ⟨Q, hQ, fun hnothing => ?_⟩
  cases hfind : fs.entries.find? (·.1 == Q) with
  | none => simp [hfind] at hc
  | some e =>
    have hany : fs.entries.any (·.1 == Q) = true := by
      rw [← isSome_find?, hfind]
      rfl
    rw [standing] at hnothing
    split at hnothing <;> cases hnothing

/-- What stands somewhere has the time of a change. -/
theorem exists_stamp (hQ : fs.place path = .ok Q) (hs : fs.standing Q ≠ .nothing) :
    ∃ t, fs.stamp path = .ok t ∧ (fs.Timed → t ≤ fs.clock) := by
  cases hentry : fs.entries.find? (·.1 == Q) with
  | some e =>
    refine ⟨e.2.2, Outcome.then_ok.2 ⟨Q, hQ, ?_⟩, fun h =>
      h.entries e (mem_of_find?_eq_some hentry)⟩
    rw [hentry]
    rfl
  | none =>
    cases hdirectory : fs.directories.find? (·.1 == Q) with
    | some e =>
      refine ⟨e.2, Outcome.then_ok.2 ⟨Q, hQ, ?_⟩, fun h =>
        h.directories e (mem_of_find?_eq_some hdirectory)⟩
      rw [hentry, hdirectory]
      rfl
    | none =>
      have hstanding : fs.standing Q = .directory := by
        have hany : fs.entries.any (·.1 == Q) = false := by
          rw [← isSome_find?, hentry]
          rfl
        rw [standing, hany, ← isSome_find?, hdirectory] at hs ⊢
        split at hs
        · next hroot => rw [if_pos hroot]
        · exact absurd rfl hs
      refine ⟨0, Outcome.then_ok.2 ⟨Q, hQ, ?_⟩, fun _ => Nat.zero_le _⟩
      rw [hentry, hdirectory, hstanding]
      rfl

theorem find_map_of_key {β : Type} {f : String × β → String × β} (hf : ∀ e, (f e).1 = e.1)
    (es : List (String × β)) (Q : String) :
    (es.map f).find? (·.1 == Q) = (es.find? (·.1 == Q)).map f := by
  have hkey : ((fun e : String × β => e.1 == Q) ∘ f) = fun e => e.1 == Q := by
    funext e
    rw [Function.comp_apply, hf]
  rw [find?_map, hkey]

theorem any_map_of_key {β : Type} {f : String × β → String × β} (hf : ∀ e, (f e).1 = e.1)
    (es : List (String × β)) (Q : String) :
    (es.map f).any (·.1 == Q) = es.any (·.1 == Q) := by
  rw [← isSome_find?, find_map_of_key hf, Option.isSome_map, isSome_find?]

theorem extends_makePlace {P : String} (hP : fs.standing P = .nothing) :
    fs.Extends (fs.makePlace P) := by
  intro Q hQ
  have hne : P ≠ Q := fun heq => hQ (heq ▸ hP)
  have hdirectories : (fs.makePlace P).directories.any (·.1 == Q) =
      fs.directories.any (·.1 == Q) := by
    simp only [makePlace, any_append]
    rw [any_map_of_key (fun e => by split <;> rfl)]
    simp [hne]
  rw [standing, hdirectories]
  rfl

theorem forall_le_map {ι : Type} {xs : List ι} {time : ι → ℕ} {f : ι → ι} {n : ℕ}
    (h : ∀ e ∈ xs, time e ≤ n) (hf : ∀ e, time (f e) = n + 1 ∨ f e = e) :
    ∀ e ∈ xs.map f, time e ≤ n + 1 := by
  refine forall_mem_map.2 fun e he => ?_
  rcases hf e with hf | hf
  · exact hf.le
  · exact hf.symm ▸ Nat.le_succ_of_le (h e he)

theorem timed_makePlace (h : fs.Timed) (P : String) : (fs.makePlace P).Timed := by
  refine ⟨fun e he => Nat.le_succ_of_le (h.entries e he), forall_mem_append.2 ⟨?_, ?_⟩⟩
  · refine forall_le_map h.directories fun e => ?_
    dsimp only
    split
    · exact .inl rfl
    · exact .inr rfl
  · exact forall_mem_singleton.2 le_rfl

/-- Making directories keeps all that is there. -/
theorem makeAlong_ok (h : fs.makeAlong here parts = .ok fs') :
    fs.Extends fs' ∧ (fs.Timed → fs'.Timed) := by
  induction parts generalizing fs here with
  | nil =>
    obtain rfl := Except.ok.inj h
    exact ⟨.refl fs, id⟩
  | cons part rest ih =>
    rw [makeAlong] at h
    split at h
    · exact ih h
    split at h
    · exact ih h
    split at h
    · cases h
    dsimp only at h
    split at h
    · cases h
    · exact ih h
    · next hnothing =>
      obtain ⟨hextends, htimed⟩ := ih h
      exact ⟨(extends_makePlace hnothing).trans hextends, fun ht => htimed (timed_makePlace ht _)⟩

theorem ensureDirectory_ok (h : fs.ensureDirectory path = .ok fs') :
    fs.Extends fs' ∧ (fs.Timed → fs'.Timed) := by
  unfold ensureDirectory makeDirectory at h
  split at h
  · obtain rfl := Except.ok.inj h
    exact ⟨.refl fs, id⟩
  split at h
  · cases h
  · exact makeAlong_ok h

variable {P : String} {c : Content α}

/-- What is found at a place after a file was put somewhere. -/
theorem find_put (fs : Files α) (P Q : String) (c : Content α) :
    (fs.put P c).entries.find? (·.1 == Q) =
      if P = Q then some (P, c, fs.clock + 1) else fs.entries.find? (·.1 == Q) := by
  unfold put
  split
  · next hany =>
    rw [find_map_of_key (fun e => by split <;> simp_all)]
    by_cases hPQ : P = Q
    · subst hPQ
      rw [← isSome_find?] at hany
      obtain ⟨e, he⟩ := Option.isSome_iff_exists.1 hany
      have hkey := find?_some he
      rw [he, if_pos rfl, Option.map_some, if_pos hkey]
    · rw [if_neg hPQ]
      cases hfind : fs.entries.find? (·.1 == Q) with
      | none => rfl
      | some e =>
        have hQ : e.1 = Q := by simpa using find?_some hfind
        rw [Option.map_some, if_neg (by simpa [hQ] using Ne.symm hPQ)]
  · next hany =>
    by_cases hPQ : P = Q
    · subst hPQ
      have hnone : fs.entries.find? (·.1 == P) = none := by
        rw [find?_eq_none]
        intro e he hP
        exact hany (any_eq_true.2 ⟨e, he, hP⟩)
      simp [hnone]
    · simp [hPQ]

theorem any_directories_put (fs : Files α) (P Q : String) (c : Content α) :
    (fs.put P c).directories.any (·.1 == Q) = fs.directories.any (·.1 == Q) := by
  unfold put
  split
  · rfl
  · exact any_map_of_key (fun e => by dsimp only; split <;> rfl) _ _

/-- What stands at a place after a file was put where nothing was. -/
theorem standing_put (hP : fs.standing P = .nothing) (Q : String) :
    (fs.put P c).standing Q = if P = Q then .file else fs.standing Q := by
  have hentries : (fs.put P c).entries.any (·.1 == Q) =
      (decide (P = Q) || fs.entries.any (·.1 == Q)) := by
    rw [← isSome_find?, find_put, ← isSome_find?]
    split <;> simp [*]
  rw [standing, hentries, any_directories_put]
  by_cases hPQ : P = Q
  · subst hPQ
    rw [standing] at hP
    split at hP
    · cases hP
    · next hroot => rw [if_neg hroot]; simp
  · rw [if_neg hPQ, standing, decide_eq_false hPQ, Bool.false_or]

theorem extends_put (hP : fs.standing P = .nothing) : fs.Extends (fs.put P c) := by
  intro Q hQ
  have hne : P ≠ Q := fun heq => hQ (heq ▸ hP)
  rw [standing_put hP, if_neg hne]

theorem timed_put (h : fs.Timed) (P : String) (c : Content α) : (fs.put P c).Timed := by
  unfold put
  split
  · refine ⟨forall_le_map h.entries fun e => ?_, fun e he => Nat.le_succ_of_le (h.directories e he)⟩
    split <;> simp
  · refine ⟨forall_mem_append.2 ⟨fun e he => Nat.le_succ_of_le (h.entries e he), by simp⟩,
      forall_le_map h.directories fun e => ?_⟩
    dsimp only
    split <;> simp

theorem standing_touch (fs : Files α) (path Q : String) :
    (fs.touch path).standing Q = fs.standing Q := by
  unfold touch
  split
  · rw [standing, standing, any_map_of_key (fun e => by dsimp only; split <;> rfl),
      any_map_of_key (fun e => by dsimp only; split <;> rfl)]
  · rfl

theorem extends_touch (fs : Files α) (path : String) : fs.Extends (fs.touch path) :=
  fun Q _ => fs.standing_touch path Q

theorem timed_touch (h : fs.Timed) (path : String) : (fs.touch path).Timed := by
  unfold touch
  split
  · refine ⟨forall_le_map h.entries fun e => ?_, forall_le_map h.directories fun e => ?_⟩ <;>
      dsimp only <;> split <;> simp
  · exact h

/-- Marking a directory as changed keeps all contents. -/
theorem find_touch (fs : Files α) (path Q : String) :
    ((fs.touch path).entries.find? (·.1 == Q)).map (fun e => e.2.1) =
      (fs.entries.find? (·.1 == Q)).map fun e => e.2.1 := by
  unfold touch
  split
  · rw [find_map_of_key (fun e => by dsimp only; split <;> rfl), Option.map_map]
    congr 1
    funext e
    rw [Function.comp_apply]
    dsimp only
    split <;> rfl
  · rfl

theorem place_touch (fs : Files α) (path path' : String) :
    (fs.touch path).place path' = fs.place path' := by
  have hfollow (here : String) (parts : List String) :
      (fs.touch path).follow here parts = fs.follow here parts := by
    induction parts generalizing here with
    | nil => rfl
    | cons part rest ih => simp [follow, standing_touch, ih]
  simp [place, hfollow]

theorem content_touch (fs : Files α) (path path' : String) :
    (fs.touch path).content path' = fs.content path' := by
  rw [content, place_touch]
  congr 1
  funext Q
  have hfind := fs.find_touch path Q
  rw [standing_touch]
  cases hold : fs.entries.find? (·.1 == Q) with
  | none =>
    rw [hold, Option.map_none, Option.map_eq_none_iff] at hfind
    rw [hfind]
  | some e =>
    rw [hold] at hfind
    obtain ⟨e', he', hcontent⟩ := Option.map_eq_some_iff.1 hfind
    rw [he']
    exact congrArg pure hcontent

theorem isFile_touch (fs : Files α) (path path' : String) :
    (fs.touch path).isFile path' = fs.isFile path' := by
  simp [isFile, found, place_touch, standing_touch]

/-- A new directory has the time of its marking. -/
theorem stamp_touch (hQ : fs.place path = .ok Q) (hmade : fs.directories.any (·.1 == Q) = true) :
    (fs.touch path).stamp path = .ok (fs.touch path).clock := by
  refine Outcome.then_ok.2 ⟨Q, (fs.place_touch path path).trans hQ, ?_⟩
  simp only [touch, hQ]
  rw [find_map_of_key (fun e => by split <;> rfl)]
  cases hentry : fs.entries.find? (·.1 == Q) with
  | some e =>
    have hkey := find?_some hentry
    simp only [Option.map_some, hkey]
    rfl
  | none =>
    rw [← isSome_find?] at hmade
    obtain ⟨e, he⟩ := Option.isSome_iff_exists.1 hmade
    have hkey := find?_some he
    rw [find_map_of_key (fun e => by split <;> rfl), he]
    simp only [Option.map_some, hkey]
    rfl

structure Leads (fs : Files α) (directory d : String) : Prop where
  place : fs.place directory = .ok d
  standing : fs.standing d = .directory

namespace Leads

variable {directory d name : String}

theorem ne_empty (h : fs.Leads directory d) : directory ≠ "" := by
  rintro rfl
  cases h.place

/-- A name in a directory leads below the place of the directory. -/
theorem place_join (h : fs.Leads directory d) (hn : IsPart name) :
    fs.place (join directory name) = .ok (join d name) := by
  obtain ⟨parts, hjoin, hparts⟩ := fields_join h.ne_empty hn
  have hnull : (join directory name).toList.contains '\x00' = directory.toList.contains '\x00' := by
    rw [Bool.eq_iff_iff, contains_iff_mem, toList_join, mem_append]
    simp only [hn.null]
    split <;> simp
  have hne : (join directory name == "") = false := by
    rw [beq_eq_false_iff_ne]
    intro h
    have := congrArg String.toList h
    rw [toList_join] at this
    exact hn.ne_empty (String.toList_inj.1 (append_eq_nil_iff.1 this).2)
  have hstart : Text.startsWith "/" (join directory name) = Text.startsWith "/" directory := by
    have hcons : ∃ c cs, directory.toList = c :: cs :=
      exists_cons_of_ne_nil fun hnil => h.ne_empty (String.toList_inj.1 hnil)
    obtain ⟨c, cs, hcs⟩ := hcons
    unfold Text.startsWith
    rw [toList_join]
    split <;> simp [hcs, Text.dropLeading?] <;> split <;> rfl
  have hplace := h.place
  rw [Files.place] at hplace ⊢
  rw [hnull, hne, hstart, hjoin]
  split at hplace
  · cases hplace
  split at hplace
  · cases hplace
  simp only [Bool.false_eq_true, if_false]
  rw [if_neg ‹_›, follow_append h.standing (hparts.imp (· ▸ hplace) (· ▸ hplace)),
    follow_part hn h.standing]

theorem of_extends (h : fs.Leads directory d) (hfs : fs.Extends fs') : fs'.Leads directory d :=
  ⟨hfs.place h.place (by simp [h.standing]), (hfs d (by simp [h.standing])).trans h.standing⟩

/-- A name in a directory does not end with a slash. -/
theorem endsWith_join (directory : String) (hn : IsPart name) :
    Text.endsWith "/" (join directory name) = false := by
  by_contra hends
  rw [Bool.not_eq_false] at hends
  obtain ⟨cs, hcs⟩ := exists_of_endsWith_singleton (c := '/') hends
  have hnil : name.toList ≠ [] := fun h => hn.ne_empty (String.toList_inj.1 h)
  have hlast : (join directory name).toList.getLast? = name.toList.getLast? := by
    rw [toList_join, getLast?_append_of_ne_nil _ hnil]
  rw [hcs, getLast?_concat] at hlast
  exact hn.slash (mem_of_getLast? hlast.symm)

theorem write (h : fs.Leads directory d) (hn : IsPart name)
    (hfree : fs.standing (join d name) = .nothing) (c : Content α) :
    fs.write (join directory name) c = .ok (fs.put (join d name) c) := by
  rw [Files.write, endsWith_join directory hn, Bool.and_false, h.place_join hn]
  refine Outcome.then_ok.2 ⟨_, rfl, ?_⟩
  rw [hfree]
  rfl

theorem content (h : fs.Leads directory d) (hn : IsPart name) {c : Content α}
    (hfind : (fs.entries.find? (·.1 == join d name)).map (fun e => e.2.1) = some c) :
    fs.content (join directory name) = .ok c := by
  obtain ⟨e, he, rfl⟩ := Option.map_eq_some_iff.1 hfind
  refine Outcome.then_ok.2 ⟨_, h.place_join hn, ?_⟩
  rw [he]
  rfl

theorem isFile (h : fs.Leads directory d) (hn : IsPart name) :
    fs.isFile (join directory name) = (fs.standing (join d name) == .file) := by
  rw [Files.isFile, found, h.place_join hn]

end Leads

/-- Nothing is at a path where a directory can be made. -/
structure IsVacant (fs : Files α) (directory : String) : Prop where
  missing : fs.exist directory = false
  made : ∃ fs' d, fs.ensureDirectory directory = .ok fs' ∧ fs'.Leads directory d ∧
    fs'.directories.any (·.1 == d) = true ∧
    ∀ name, IsPart name → fs'.standing (join d name) = .nothing

end Files

end BeliefLogic
