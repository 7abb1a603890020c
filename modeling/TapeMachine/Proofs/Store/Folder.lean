import Mathlib.Tactic.Common
import TapeMachine.Proofs.Files
import TapeMachine.Store

/-!
# The names in a folder of tables

A folder of tables has one file for each table, and the name of the file is the name of the table
with an ending. Names can be got back from the names of files, so listing the files tells which
tables there are, but for one thing: the names of files that are being written start with a mark,
and a listing passes over every file whose name starts with it. Tables may have such names too. They
are saved, loaded and deleted like all others, and are listed never.

`listing_passes_over_marked_names` says this of every run of changes that starts with an empty
folder. Its proof keeps an invariant, `Stocked`: in the folder there is a file for each name that is
kept, and nothing else.
-/

namespace TapeMachine.Folder

/-! ## Changes -/

/-- A change of a folder of tables. -/
inductive Change where
  | save (name : String) (t : Table)
  | delete (name : String)

/-- Makes a change. -/
def change (fs : Files) (dir : String) : Change → Files × Option StoreError
  | .save name t => save fs dir name t
  | .delete name => delete fs dir name

/-- The names that are kept when a change has been made: one that has been saved is kept, one that
has been deleted is not, and a change that failed makes no difference. -/
def keep (kept : String → Bool) : Change → Option StoreError → String → Bool
  | _, some _ => kept
  | .save name _, none => Function.update kept name true
  | .delete name, none => Function.update kept name false

/-- The tree and the names that are kept when some changes have been made. -/
def after (dir : String) (x : Files × (String → Bool)) (cs : List Change) :
    Files × (String → Bool) :=
  cs.foldl (fun x c => ((change x.1 dir c).1, keep x.2 c (change x.1 dir c).2)) x

/-! ## The names of files -/

/-- A name is what stands in front of the ending. -/
lemma append_extension_inj {a b : String} : a ++ extension = b ++ extension ↔ a = b := by
  refine ⟨fun h => String.toList_injective ?_, fun h => h ▸ rfl⟩
  have hchars := congrArg String.toList h
  rw [String.toList_append, String.toList_append] at hchars
  exact List.append_cancel_right hchars

/-- The name of a file can stand in a folder. -/
lemma proper_append_extension {name : String} (h : isName name = true) :
    Files.Proper (name ++ extension) := by
  have hchars : (name ++ extension).toList = name.toList ++ ['.', 't', 'm'] := by
    rw [String.toList_append]
    rfl
  have hlong : ∀ s : String, s.toList.getLast? ≠ some 'm' → name ++ extension ≠ s := by
    rintro s hs rfl
    exact hs (by rw [hchars]; simp)
  refine ⟨?_, hlong "" (by decide), hlong "." (by decide), hlong ".." (by decide)⟩
  rw [hchars]
  simp only [isName, Bool.and_eq_true, Bool.not_eq_true', List.any_eq_false] at h
  intro hslash
  rcases List.mem_append.mp hslash with hslash | hslash
  · simpa using h.2 '/' hslash
  · exact absurd hslash (by decide)

/-- A path is given for the names that files can have, and leads into the folder. -/
lemma of_path {fs : Files} {dir name file : String} {p q : List String}
    (hpath : path dir name = .ok file) (hdir : fs.place dir = .ok p)
    (hfile : fs.place file = .ok q) : q = p ++ [name ++ extension] := by
  unfold path at hpath
  split at hpath
  · rename_i hname
    cases hpath
    exact Files.place_join (proper_append_extension hname) hdir hfile
  · cases hpath

/-- The ending does not make a name start with the mark. -/
lemma temporary_prefix_iff (name : String) :
    temporary.toList <+: (name ++ extension).toList ↔ temporary.toList <+: name.toList := by
  rw [String.toList_append]
  refine ⟨fun h => ?_, fun h => h.trans (List.prefix_append _ _)⟩
  rcases List.prefix_or_prefix_of_prefix h (List.prefix_append name.toList extension.toList)
    with hmark | ⟨rest, hrest⟩
  · exact hmark
  · -- The mark would have to go on with the ending, and so to hold a point.
    rw [← hrest, List.prefix_append_right_inj] at h
    cases rest with
    | nil => exact ⟨[], by rw [← hrest]; simp⟩
    | cons c cs =>
      have hc : c = '.' := (List.cons_prefix_cons.mp h).1
      have hpoint : '.' ∈ temporary.toList := by
        rw [← hrest, hc]
        exact List.mem_append_right _ List.mem_cons_self
      exact absurd hpoint (by decide)

/-- The name that a file stands for. -/
lemma nameOf?_eq_some_iff {name other text : String} :
    nameOf? (name ++ extension) (.file text) = some other ↔
      other = name ∧ ¬ temporary.toList <+: name.toList := by
  have hends : extension.toList.isSuffixOf (name ++ extension).toList = true := by
    rw [List.isSuffixOf_iff_suffix, String.toList_append]
    exact List.suffix_append _ _
  have hfront : (name ++ extension).toList.take
      ((name ++ extension).toList.length - extension.length) = name.toList := by
    rw [String.toList_append, List.length_append, String.length_toList, String.length_toList,
      Nat.add_sub_cancel, ← String.length_toList, List.take_left]
  rw [← temporary_prefix_iff name, ← List.isPrefixOf_iff_prefix]
  simp only [nameOf?, hends, hfront, String.ofList_toList, reduceCtorEq, decide_false,
    Bool.not_true, Bool.false_or]
  cases temporary.toList.isPrefixOf (name ++ extension).toList with
  | true => simp
  | false => simp [eq_comm]

/-! ## The invariant -/

/-- In the folder at `p` there is a file for each name that is kept, and nothing else. -/
structure Stocked (fs : Files) (dir : String) (p : List String) (kept : String → Bool) : Prop where
  place : fs.place dir = .ok p
  folder : fs.entryAt p = some .folder
  nodup : ((fs.inside p).map (·.1)).Nodup
  mem_iff : ∀ n, n ∈ (fs.inside p).map (·.1) ↔ ∃ name, kept name = true ∧ n = name ++ extension
  files : ∀ x ∈ fs.inside p, ∃ text, x.2 = .file text
  leads : ∀ name, kept name = true →
    ∃ file, path dir name = .ok file ∧ fs.place file = .ok (p ++ [name ++ extension])

namespace Stocked

variable {fs : Files} {dir : String} {p : List String} {kept : String → Bool}

/-- What stands in the folder are files. -/
lemma exists_file (h : Stocked fs dir p kept) {n : String} {e : Entry}
    (he : fs.entryAt (p ++ [n]) = some e) : ∃ text, e = .file text :=
  h.files _ (Files.mem_inside_of_entryAt he)

/-- There is no folder in the folder. -/
lemma ne_folder (h : Stocked fs dir p kept) (n : String) :
    fs.entryAt (p ++ [n]) ≠ some .folder := by
  intro he
  obtain ⟨text, htext⟩ := h.exists_file he
  cases htext

/-- There is a file for a name that is kept, and nothing for any other. -/
lemma entryAt_iff (h : Stocked fs dir p kept) (name : String) :
    kept name = true ↔ ∃ text, fs.entryAt (p ++ [name ++ extension]) = some (.file text) := by
  constructor
  · intro hkept
    obtain ⟨e, he⟩ := Files.exists_entryAt_of_mem ((h.mem_iff _).mpr ⟨name, hkept, rfl⟩)
    obtain ⟨text, rfl⟩ := h.exists_file he
    exact ⟨text, he⟩
  · rintro ⟨text, htext⟩
    have hmem : name ++ extension ∈ (fs.inside p).map (·.1) :=
      List.mem_map_of_mem (Files.mem_inside_of_entryAt htext)
    obtain ⟨other, hother, heq⟩ := (h.mem_iff _).mp hmem
    rw [append_extension_inj.mp heq]
    exact hother

/-- Saving fails and changes nothing, or puts a file into the folder. -/
lemma save_cases (h : Stocked fs dir p kept) (name : String) (t : Table) :
    (∃ e, save fs dir name t = (fs, some e)) ∨
    (∃ file, path dir name = .ok file ∧ fs.place file = .ok (p ++ [name ++ extension]) ∧
      save fs dir name t = (fs.put (p ++ [name ++ extension]) (.file (text t)), none)) := by
  cases hpath : path dir name with
  | error e => exact Or.inl ⟨e, by rw [save, hpath]⟩
  | ok file =>
    have hfolders := Files.makeFolders_of_folder h.place h.folder
    cases htemp : fs.place (temporaryPath dir name sampleMark) with
    | error f =>
      simp only [save, hpath, hfolders, htemp]
      exact Or.inl ⟨_, rfl⟩
    | ok q =>
      cases hwrite : fs.write file (text t) with
      | error e =>
        simp only [save, hpath, hfolders, htemp, hwrite]
        exact Or.inl ⟨_, rfl⟩
      | ok fs' =>
        obtain ⟨q, hq, -, hput⟩ := Files.of_write hwrite
        cases of_path hpath h.place hq
        have hfs' : fs' = fs.put (p ++ [name ++ extension]) (.file (text t)) := by
          refine hput fun hsink => ?_
          obtain ⟨text, htext⟩ := h.exists_file hsink
          cases htext
        refine Or.inr ⟨file, rfl, hq, ?_⟩
        simp only [save, hpath, hfolders, htemp, hwrite, hfs']

/-- Deleting fails and changes nothing, or there is nothing to delete, or a file is taken out of the
folder. -/
lemma delete_cases (h : Stocked fs dir p kept) (name : String) :
    (∃ e, delete fs dir name = (fs, some e)) ∨
    (kept name = false ∧ delete fs dir name = (fs, none)) ∨
    delete fs dir name = (fs.without (p ++ [name ++ extension]), none) := by
  cases hpath : path dir name with
  | error e => exact Or.inl ⟨e, by rw [delete, hpath]⟩
  | ok file =>
    cases hremove : fs.remove file with
    | ok fs' =>
      obtain ⟨q, hq, -, rfl⟩ := Files.of_remove hremove
      cases of_path hpath h.place hq
      exact Or.inr (Or.inr (by simp only [delete, hpath, hremove]))
    | error e =>
      by_cases hfault : e.fault = .notExist
      · refine Or.inr (Or.inl ⟨?_, by simp only [delete, hpath, hremove, hfault, if_true]⟩)
        -- A name that is kept has a file, and that could be removed.
        refine Bool.eq_false_iff.mpr fun hkept => ?_
        obtain ⟨file', hfile', hplace⟩ := h.leads name hkept
        cases hpath.symm.trans hfile'
        obtain ⟨text, htext⟩ := (h.entryAt_iff name).mp hkept
        rw [Files.remove_of_file hplace htext] at hremove
        cases hremove
      · simp only [delete, hpath, hremove, if_neg hfault]
        exact Or.inl ⟨_, rfl⟩

/-- What makes no folder go away, and puts the files for other names into the folder at `p`, keeps
other names. -/
lemma of_inside (h : Stocked fs dir p kept) {fs' : Files} {kept' : String → Bool}
    (hfolders : ∀ r, fs.entryAt r = some .folder → fs'.entryAt r = some .folder)
    (hhome : fs'.home = fs.home) (hnodup : ((fs'.inside p).map (·.1)).Nodup)
    (hmem : ∀ n, n ∈ (fs'.inside p).map (·.1) ↔ ∃ name, kept' name = true ∧ n = name ++ extension)
    (hfiles : ∀ x ∈ fs'.inside p, x ∈ fs.inside p ∨ ∃ text, x.2 = .file text)
    (hleads : ∀ name, kept' name = true → kept name = true ∨
      ∃ file, path dir name = .ok file ∧ fs.place file = .ok (p ++ [name ++ extension])) :
    Stocked fs' dir p kept' := by
  refine ⟨Files.place_mono hfolders hhome h.place, hfolders p h.folder, hnodup, hmem, ?_, ?_⟩
  · intro x hx
    exact (hfiles x hx).elim (h.files x) id
  · intro name hname
    obtain ⟨file, hfile, hplace⟩ := (hleads name hname).elim (h.leads name) id
    exact ⟨file, hfile, Files.place_mono hfolders hhome hplace⟩

/-- When a file has been put into the folder, its name is kept. -/
lemma put (h : Stocked fs dir p kept) {name file : String} (hpath : path dir name = .ok file)
    (hfile : fs.place file = .ok (p ++ [name ++ extension])) (text : String) :
    Stocked (fs.put (p ++ [name ++ extension]) (.file text)) dir p
      (Function.update kept name true) := by
  have hne : p ++ [name ++ extension] ≠ [] := by simp
  refine h.of_inside (fun r => Files.entryAt_put_of_folder hne (h.ne_folder _) _) rfl ?_ ?_ ?_ ?_
  · rw [Files.inside_put]
    exact nodup_keys_filter_append h.nodup _ _
  · intro n
    rw [Files.inside_put, List.map_append, List.mem_append, mem_keys_filter_ne, h.mem_iff,
      List.map_singleton, List.mem_singleton]
    constructor
    · rintro (⟨⟨other, hother, rfl⟩, hdiff⟩ | rfl)
      · have hdiff : other ≠ name := fun heq => hdiff (heq ▸ rfl)
        exact ⟨other, by rw [Function.update_of_ne hdiff, hother], rfl⟩
      · exact ⟨name, Function.update_self .., rfl⟩
    · rintro ⟨other, hother, rfl⟩
      by_cases heq : other = name
      · exact Or.inr (heq ▸ rfl)
      · rw [Function.update_of_ne heq] at hother
        exact Or.inl ⟨⟨other, hother, rfl⟩, mt append_extension_inj.mp heq⟩
  · rw [Files.inside_put]
    intro x hx
    rcases List.mem_append.mp hx with hx | hx
    · exact Or.inl (List.mem_filter.mp hx).1
    · exact Or.inr ⟨text, by rw [List.mem_singleton.mp hx]⟩
  · intro other hother
    by_cases heq : other = name
    · exact Or.inr ⟨file, heq ▸ hpath, heq ▸ hfile⟩
    · rw [Function.update_of_ne heq] at hother
      exact Or.inl hother

/-- When a file has been taken out of the folder, its name is not kept. -/
lemma without (h : Stocked fs dir p kept) (name : String) :
    Stocked (fs.without (p ++ [name ++ extension])) dir p (Function.update kept name false) := by
  have hne : p ++ [name ++ extension] ≠ [] := by simp
  have hkept : ∀ other, Function.update kept name false other = true ↔
      kept other = true ∧ other ≠ name := by
    intro other
    rw [Function.update_apply]
    by_cases heq : other = name <;> simp [heq]
  refine h.of_inside (fun r => Files.entryAt_without_of_folder hne (h.ne_folder _)) rfl ?_ ?_ ?_ ?_
  · rw [Files.inside_without]
    exact nodup_keys_filter h.nodup _
  · intro n
    rw [Files.inside_without, mem_keys_filter_ne, h.mem_iff]
    simp only [hkept]
    constructor
    · rintro ⟨⟨other, hother, rfl⟩, hdiff⟩
      exact ⟨other, ⟨hother, fun heq => hdiff (heq ▸ rfl)⟩, rfl⟩
    · rintro ⟨other, ⟨hother, hdiff⟩, rfl⟩
      exact ⟨⟨other, hother, rfl⟩, mt append_extension_inj.mp hdiff⟩
  · rw [Files.inside_without]
    exact fun x hx => Or.inl (List.mem_filter.mp hx).1
  · exact fun other hother => Or.inl ((hkept other).mp hother).1

/-- A change keeps the invariant. -/
theorem change (h : Stocked fs dir p kept) (c : Change) :
    Stocked (change fs dir c).1 dir p (keep kept c (change fs dir c).2) := by
  cases c with
  | save name t =>
    rw [Folder.change]
    rcases h.save_cases name t with ⟨e, hsave⟩ | ⟨file, hpath, hfile, hsave⟩
    · rw [hsave]
      exact h
    · rw [hsave]
      exact h.put hpath hfile (text t)
  | delete name =>
    rw [Folder.change]
    rcases h.delete_cases name with ⟨e, hdelete⟩ | ⟨hkept, hdelete⟩ | hdelete
    · rw [hdelete]
      exact h
    · rw [hdelete, keep, ← hkept, Function.update_eq_self]
      exact h
    · rw [hdelete]
      exact h.without name

/-- Any number of changes keeps the invariant. -/
theorem after (h : Stocked fs dir p kept) (cs : List Change) :
    Stocked (after dir (fs, kept) cs).1 dir p (after dir (fs, kept) cs).2 := by
  induction cs generalizing fs kept with
  | nil => exact h
  | cons c cs ih => exact ih (h.change c)

/-! ## What is listed and loaded -/

/-- The names that are listed are the names that are kept, but for those with the mark. -/
theorem list (h : Stocked fs dir p kept) :
    ∃ names, Folder.list fs dir = .ok names ∧ names.Nodup ∧
      ∀ name, name ∈ names ↔ kept name = true ∧ ¬ temporary.toList <+: name.toList := by
  have hlist : fs.list dir = .ok (fs.children p) := by
    rw [Files.list, h.place]
    simp only [h.folder]
  have hperm := fs.children_perm p
  -- Each file in the folder is that of a name.
  have hfile : ∀ x ∈ fs.children p, ∃ name text, kept name = true ∧
      x = (name ++ extension, .file text) := by
    rintro ⟨n, e⟩ hx
    have hx := hperm.mem_iff.mp hx
    obtain ⟨name, hname, rfl⟩ := (h.mem_iff n).mp (List.mem_map_of_mem hx)
    obtain ⟨text, rfl⟩ := h.files _ hx
    exact ⟨name, text, hname, rfl⟩
  refine ⟨_, by rw [Folder.list, hlist], ?_, fun name => ?_⟩
  · have hnodup : ((fs.children p).map (·.1)).Nodup := (hperm.map _).nodup_iff.mpr h.nodup
    refine List.pairwise_filterMap.mpr ((List.pairwise_map.mp hnodup).imp_of_mem ?_)
    intro x y hx hy hxy a ha b hb
    obtain ⟨name, text, -, rfl⟩ := hfile x hx
    obtain ⟨name', text', -, rfl⟩ := hfile y hy
    rw [(nameOf?_eq_some_iff.mp ha).1, (nameOf?_eq_some_iff.mp hb).1]
    exact fun heq => hxy (heq ▸ rfl)
  · rw [List.mem_filterMap]
    constructor
    · rintro ⟨x, hx, hname⟩
      obtain ⟨name', text, hkept, rfl⟩ := hfile x hx
      obtain ⟨rfl, hmark⟩ := nameOf?_eq_some_iff.mp hname
      exact ⟨hkept, hmark⟩
    · rintro ⟨hkept, hmark⟩
      obtain ⟨text, htext⟩ := (h.entryAt_iff name).mp hkept
      exact ⟨_, hperm.mem_iff.mpr (Files.mem_inside_of_entryAt htext),
        nameOf?_eq_some_iff.mpr ⟨rfl, hmark⟩⟩

/-- Loading finds the names that are kept, among those that can be saved. -/
theorem load_iff (h : Stocked fs dir p kept) {name : String} {t : Table}
    (hsave : (save fs dir name t).2 = none) :
    kept name = true ↔ load fs dir name ≠ .error .notFound := by
  rcases h.save_cases name t with ⟨e, he⟩ | ⟨file, hpath, hfile, -⟩
  · rw [he] at hsave
    cases hsave
  · rw [h.entryAt_iff, load, hpath]
    cases he : fs.entryAt (p ++ [name ++ extension]) with
    | none => simp [Files.read, hfile, he]
    | some e =>
      obtain ⟨text, rfl⟩ := h.exists_file he
      refine iff_of_true ⟨text, rfl⟩ ?_
      simp only [Files.read, hfile, he]
      cases Canonical.decode text <;> nofun

end Stocked

/-- An empty folder keeps no names. -/
lemma stocked_of_empty {fs : Files} {dir : String} (h : fs.list dir = .ok []) :
    ∃ p, Stocked fs dir p fun _ => false := by
  unfold Files.list at h
  split at h
  · cases h
  · rename_i p hp
    split at h
    · cases h
    · rename_i hfolder
      have hinside : fs.inside p = [] :=
        (Except.ok.inj h ▸ fs.children_perm p).symm.eq_nil
      refine ⟨p, hp, hfolder, ?_, fun n => ?_, ?_, nofun⟩
      · simp [hinside]
      · simp [hinside]
      · simp [hinside]
    · cases h

/-- After any changes to an empty folder of tables, a listing gives the names that have been saved
and not been deleted since, each once, but passes over those that start with the mark of files that
are being written. Loading does not pass over them: of the names that can be saved, it finds exactly
those that are kept. -/
theorem listing_passes_over_marked_names {fs : Files} {dir : String} (h : fs.list dir = .ok [])
    (cs : List Change) :
    (∃ names, list (after dir (fs, fun _ => false) cs).1 dir = .ok names ∧ names.Nodup ∧
      ∀ name, name ∈ names ↔ (after dir (fs, fun _ => false) cs).2 name = true ∧
        ¬ temporary.toList <+: name.toList) ∧
    ∀ name t, (save (after dir (fs, fun _ => false) cs).1 dir name t).2 = none →
      ((after dir (fs, fun _ => false) cs).2 name = true ↔
        load (after dir (fs, fun _ => false) cs).1 dir name ≠ .error .notFound) := by
  obtain ⟨p, hp⟩ := stocked_of_empty h
  have hafter := hp.after cs
  exact ⟨hafter.list, fun name t => hafter.load_iff⟩

/-- A table of one transition. -/
def ring : Table :=
  (Table.empty.addAll [⟨"ring", "*", "!", "r", "halt"⟩]).1

/-- Two names are saved, one with the mark, and a third is saved and deleted. -/
def bells : List Change :=
  [.save "bell" ring, .save "tmp-bell" ring, .save "gong" ring, .delete "gong"]

/-- Of the bells, only those that were kept and whose names do not have the mark are listed. -/
theorem listing_passes_over_marked_names_bells :
    Files.fresh.list "." = .ok [] ∧
      ∃ names, list (after "." (Files.fresh, fun _ => false) bells).1 "." = .ok names ∧
        "bell" ∈ names ∧ "tmp-bell" ∉ names ∧ "gong" ∉ names := by
  have hempty : Files.fresh.list "." = .ok [] := congrArg Except.ok List.mergeSort_nil
  obtain ⟨⟨names, hnames, -, hmem⟩, -⟩ := listing_passes_over_marked_names hempty bells
  refine ⟨hempty, names, hnames, (hmem _).mpr ⟨rfl, by decide⟩, fun h => ?_, fun h => ?_⟩
  · exact ((hmem _).mp h).2 (by decide)
  · have hkept : (after "." (Files.fresh, fun _ => false) bells).2 "gong" = false := rfl
    exact absurd ((hmem _).mp h).1 (by simp [hkept])

/-- A table can be saved and loaded under a name with the mark, and is not listed. -/
theorem marked_name_is_not_listed :
    Files.fresh.list "." = .ok [] ∧
      (after "." (Files.fresh, fun _ => false) [.save "tmp-bell" ring]).2 "tmp-bell" = true ∧
      load (after "." (Files.fresh, fun _ => false) [.save "tmp-bell" ring]).1 "." "tmp-bell" =
        .ok ring ∧
      list (after "." (Files.fresh, fun _ => false) [.save "tmp-bell" ring]).1 "." = .ok [] := by
  have hfiles : (after "." (Files.fresh, fun _ => false) [.save "tmp-bell" ring]).1 =
      Files.fresh.put ["home", "tmp-bell.tm"] (.file (text ring)) := rfl
  have hlisted : (Files.fresh.put ["home", "tmp-bell.tm"] (.file (text ring))).list "." =
      .ok [("tmp-bell.tm", .file (text ring))] :=
    congrArg Except.ok (List.mergeSort_singleton _)
  refine ⟨congrArg Except.ok List.mergeSort_nil, rfl, rfl, ?_⟩
  rw [hfiles, list, hlisted]
  rfl

end TapeMachine.Folder
