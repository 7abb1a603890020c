import TapeMachine.Files
import TapeMachine.Proofs.Keyed
import TapeMachine.Proofs.Text.Cutting

/-!
# Paths and places

A path is a list of names, and following it is following the names one after the other
(`Files.follow_append`). Working out the detours of a path does not change where it leads, as long
as it can be followed at all (`Files.follow_straighten`); so a path to something inside a folder
leads inside that folder (`Files.place_join`). Making a folder that is there changes nothing
(`Files.makeFolders_of_folder`).

What can be followed stays so as long as folders stay folders (`Files.place_mono`).
-/

namespace TapeMachine.Files

open Text

variable {fs fs' : Files} {here p q : List String}

/-! ## Following names -/

/-- Names lead on from a folder only. -/
lemma entryAt_of_follow_cons {x : String} {xs : List String}
    (h : fs.follow here (x :: xs) = .ok q) : fs.entryAt here = some .folder := by
  rw [follow] at h
  split at h
  · cases h
  · assumption
  · cases h

/-- How a name leads on from a folder. -/
lemma follow_cons (h : fs.entryAt here = some .folder) (x : String) (xs : List String) :
    fs.follow here (x :: xs) =
      if x = "" ∨ x = "." then fs.follow here xs
      else if x = ".." then fs.follow here.dropLast xs
      else if maxName < x.utf8ByteSize then .error .nameTooLong
      else fs.follow (here ++ [x]) xs := by
  rw [follow, h]
  simp only [Bool.or_eq_true, beq_iff_eq]

/-- Names are followed one after the other. -/
theorem follow_append (fs : Files) (here xs ys : List String) :
    fs.follow here (xs ++ ys) = (fs.follow here xs).bind fun q => fs.follow q ys := by
  induction xs generalizing here with
  | nil => rfl
  | cons x xs ih =>
    by_cases hhere : fs.entryAt here = some .folder
    · rw [List.cons_append, follow_cons hhere, follow_cons hhere]
      split
      · exact ih _
      split
      · exact ih _
      split
      · rfl
      · exact ih _
    · rw [List.cons_append, follow, follow]
      split
      · rfl
      · contradiction
      · rfl

/-- Names can be followed in parts. -/
lemma follow_append_eq_ok_iff {xs ys : List String} :
    fs.follow here (xs ++ ys) = .ok q ↔
      ∃ p, fs.follow here xs = .ok p ∧ fs.follow p ys = .ok q := by
  rw [follow_append]
  cases fs.follow here xs with
  | error f => simp [Except.bind]
  | ok p => simp [Except.bind]

/-- Where all folders are still there, names lead to the same place as before. -/
lemma follow_mono (h : ∀ r, fs.entryAt r = some .folder → fs'.entryAt r = some .folder)
    {xs : List String} (hxs : fs.follow here xs = .ok q) : fs'.follow here xs = .ok q := by
  induction xs generalizing here with
  | nil => exact hxs
  | cons x xs ih =>
    have hhere := entryAt_of_follow_cons hxs
    rw [follow_cons hhere] at hxs
    rw [follow_cons (h _ hhere)]
    by_cases hskip : x = "" ∨ x = "."
    · rw [if_pos hskip] at hxs ⊢
      exact ih hxs
    rw [if_neg hskip] at hxs ⊢
    by_cases hup : x = ".."
    · rw [if_pos hup] at hxs ⊢
      exact ih hxs
    rw [if_neg hup] at hxs ⊢
    by_cases hlong : maxName < x.utf8ByteSize
    · rw [if_pos hlong] at hxs
      cases hxs
    · rw [if_neg hlong] at hxs ⊢
      exact ih hxs

/-- Where all folders are still there, a path leads to the same place as before. -/
theorem place_mono (h : ∀ r, fs.entryAt r = some .folder → fs'.entryAt r = some .folder)
    (hhome : fs'.home = fs.home) {path : String} (hpath : fs.place path = .ok q) :
    fs'.place path = .ok q := by
  unfold place at hpath ⊢
  split at hpath
  · cases hpath
  split at hpath
  · cases hpath
  · rename_i hne hnul
    rw [if_neg hne, if_neg hnul, hhome]
    exact follow_mono h hpath

/-! ## The names of a path -/

/-- Where a path starts. -/
def start (fs : Files) (path : String) : List String :=
  if isRooted path then [] else fs.home

/-- A path leads somewhere if it is not empty, holds no null character and can be followed. -/
lemma place_eq_ok_iff {path : String} :
    fs.place path = .ok q ↔
      path ≠ "" ∧ (∀ c ∈ path.toList, c.toNat ≠ 0) ∧
        fs.follow (fs.start path) (names path) = .ok q := by
  unfold place start
  by_cases hne : path = ""
  · simp [hne]
  · by_cases hnul : path.toList.any (·.toNat == 0) = true
    · rw [if_neg (by simpa using hne), if_pos hnul]
      simp only [List.any_eq_true, beq_iff_eq] at hnul
      obtain ⟨c, hc, hzero⟩ := hnul
      simp only [reduceCtorEq, false_iff]
      exact fun h => h.2.1 c hc hzero
    · rw [if_neg (by simpa using hne), if_neg hnul]
      simp only [List.any_eq_true, beq_iff_eq, not_exists, not_and] at hnul
      exact ⟨fun h => ⟨hne, hnul, h⟩, fun h => h.2.2⟩

/-- A path has at least one name in it. -/
lemma names_ne_nil (path : String) : names path ≠ [] :=
  mt List.map_eq_nil_iff.mp (pieces_ne_nil _ _)

/-- At a slash a path falls into two parts. -/
lemma names_of_toList_eq {path : String} {as bs : List Char} (h : path.toList = as ++ '/' :: bs) :
    names path = names (String.ofList as) ++ names (String.ofList bs) := by
  rw [names, h, pieces_append_cons as (by decide), List.map_append, names, names,
    String.toList_ofList, String.toList_ofList]

/-- A name without slashes is a path of one name. -/
lemma names_of_notMem {name : String} (h : '/' ∉ name.toList) : names name = [name] := by
  have hpieces : pieces (· == '/') name.toList = [name.toList] :=
    pieces_of_forall fun c hc => beq_eq_false_iff_ne.mpr fun hslash => h (hslash ▸ hc)
  rw [names, hpieces, List.map_singleton, String.ofList_toList]

/-- The names of a path have no slashes. -/
lemma slash_notMem_of_mem_names {path name : String} (h : name ∈ names path) :
    '/' ∉ name.toList := by
  obtain ⟨cs, hcs, rfl⟩ := List.mem_map.mp h
  intro hslash
  rw [String.toList_ofList] at hslash
  simpa using eq_false_of_mem_pieces hcs '/' hslash

/-- Names that are put together with slashes are the names of the path. -/
lemma names_intercalate {xs : List String} (hne : xs ≠ []) (h : ∀ x ∈ xs, '/' ∉ x.toList) :
    names ("/".intercalate xs) = xs := by
  induction xs with
  | nil => exact absurd rfl hne
  | cons x xs ih =>
    cases xs with
    | nil => exact names_of_notMem (h x List.mem_cons_self)
    | cons y ys =>
      have hrest : names ("/".intercalate (y :: ys)) = y :: ys :=
        ih (List.cons_ne_nil _ _) fun z hz => h z (List.mem_cons_of_mem _ hz)
      have hchars : ("/".intercalate (x :: y :: ys)).toList =
          x.toList ++ '/' :: ("/".intercalate (y :: ys)).toList := by
        rw [String.toList_intercalate, String.toList_intercalate]
        simp [List.intercalate]
      rw [names_of_toList_eq hchars, String.ofList_toList, String.ofList_toList, hrest,
        names_of_notMem (h x List.mem_cons_self)]
      rfl

/-! ## Detours -/

/-- What holds of the names of a path, apart from those that stay where they are, and of `..`, holds
of all names that are left. -/
lemma forall_mem_straighten {P : String → Prop} (hparent : P "..") {rooted : Bool}
    {done rest : List String} (hdone : ∀ d ∈ done, P d)
    (hrest : ∀ x ∈ rest, x ≠ "" → x ≠ "." → P x) : ∀ x ∈ straighten rooted done rest, P x := by
  fun_induction straighten rooted done rest with
  | case1 done => exact fun x hx => hdone x (List.mem_reverse.mp hx)
  | case2 done name rest hskip ih =>
    exact ih hdone fun x hx => hrest x (List.mem_cons_of_mem _ hx)
  | case3 name rest hskip hup ih =>
    refine ih (fun d hd => ?_) fun x hx => hrest x (List.mem_cons_of_mem _ hx)
    split at hd
    · cases hd
    · exact List.mem_singleton.mp hd ▸ hparent
  | case4 name rest hskip hup d ds hd ih =>
    exact ih (List.forall_mem_cons.mpr ⟨hparent, hdone⟩)
      fun x hx => hrest x (List.mem_cons_of_mem _ hx)
  | case5 name rest hskip hup d ds hd ih =>
    exact ih (List.forall_mem_cons.mp hdone).2 fun x hx => hrest x (List.mem_cons_of_mem _ hx)
  | case6 done name rest hskip hup ih =>
    have hname : P name := by
      simp only [Bool.or_eq_true, beq_iff_eq, not_or] at hskip
      exact hrest name List.mem_cons_self hskip.1 hskip.2
    exact ih (List.forall_mem_cons.mpr ⟨hname, hdone⟩)
      fun x hx => hrest x (List.mem_cons_of_mem _ hx)

/-- A proper last name stays the last one. -/
lemma straighten_append_singleton {x : String} (hne : x ≠ "") (hdot : x ≠ ".") (hup : x ≠ "..")
    (rooted : Bool) (done rest : List String) :
    straighten rooted done (rest ++ [x]) = straighten rooted done rest ++ [x] := by
  fun_induction straighten rooted done rest <;> simp_all [straighten]

/-- Working out the detours does not change where names lead, if they can be followed. -/
theorem follow_straighten {rooted : Bool} (hrooted : rooted = true → here = [])
    {done rest : List String} (hdone : ∀ d ∈ done, d ≠ "" ∧ d ≠ ".")
    (h : fs.follow here (done.reverse ++ rest) = .ok q) :
    fs.follow here (straighten rooted done rest) = .ok q := by
  fun_induction straighten rooted done rest with
  | case1 done =>
    rw [List.append_nil] at h
    exact h
  | case2 done name rest hskip ih =>
    refine ih hdone ?_
    obtain ⟨p, hp, hrest⟩ := follow_append_eq_ok_iff.mp h
    rw [follow_cons (entryAt_of_follow_cons hrest), if_pos (by simpa using hskip)] at hrest
    exact follow_append_eq_ok_iff.mpr ⟨p, hp, hrest⟩
  | case3 name rest hskip hup ih =>
    have hname : name = ".." := by simpa using hup
    cases rooted with
    | false => exact ih (by simp) (by simpa [hname] using h)
    | true =>
      -- There is nothing above the root.
      have hroot : here = [] := hrooted rfl
      subst hroot hname
      rw [List.reverse_nil, List.nil_append, follow_cons rfl, if_neg (by simp), if_pos rfl] at h
      exact ih (by simp) (by simpa using h)
  | case4 name rest hskip hup d ds hd ih =>
    have hname : name = ".." := by simpa using hup
    refine ih (List.forall_mem_cons.mpr ⟨by simp, hdone⟩) ?_
    simpa [hname] using h
  | case5 name rest hskip hup d ds hd ih =>
    -- The name and the way back up cancel out, since the folder above it is still there.
    have hname : name = ".." := by simpa using hup
    obtain ⟨hd', hds⟩ := List.forall_mem_cons.mp hdone
    refine ih hds ?_
    rw [List.reverse_cons, List.append_assoc, List.singleton_append] at h
    obtain ⟨p, hp, hrest⟩ := follow_append_eq_ok_iff.mp h
    rw [follow_cons (entryAt_of_follow_cons hrest), if_neg (by simp [hd']),
      if_neg (by simpa using hd)] at hrest
    split at hrest
    · cases hrest
    · rw [follow_cons (entryAt_of_follow_cons hrest), if_neg (by simp [hname]), if_pos hname,
        List.dropLast_concat] at hrest
      exact follow_append_eq_ok_iff.mpr ⟨p, hp, hrest⟩
  | case6 done name rest hskip hup ih =>
    have hname : name ≠ "" ∧ name ≠ "." := by simpa using hskip
    refine ih (List.forall_mem_cons.mpr ⟨hname, hdone⟩) ?_
    rw [List.reverse_cons, List.append_assoc, List.singleton_append]
    exact h

/-! ## Something inside a folder -/

/-- A name that can stand in a folder. -/
structure Proper (name : String) : Prop where
  slash_notMem : '/' ∉ name.toList
  ne_empty : name ≠ ""
  ne_here : name ≠ "."
  ne_parent : name ≠ ".."

/-- A path whose first name is not empty neither is empty nor starts at the root. -/
lemma isRooted_eq_false {path x : String} {xs : List String} (h : names path = x :: xs)
    (hx : x ≠ "") : isRooted path = false ∧ path ≠ "" := by
  constructor
  · refine Bool.eq_false_iff.mpr fun hrooted => hx ?_
    obtain ⟨cs, hcs⟩ := List.head?_eq_some_iff.mp (beq_iff_eq.mp hrooted)
    have hslash : path.toList = [] ++ '/' :: cs := hcs
    have hnames : names path = "" :: names (String.ofList cs) := names_of_toList_eq hslash
    exact (List.cons.inj (h.symm.trans hnames)).1
  · rintro rfl
    exact hx (List.cons.inj h).1.symm

/-- The names of a path to something inside a folder: those of the folder without detours, and the
name of the thing. -/
lemma names_join {dir name : String} (hdir : dir ≠ "") (hname : Proper name) :
    isRooted (join dir name) = isRooted dir ∧
      names (join dir name) = (if isRooted dir then [""] else []) ++
        (straighten (isRooted dir) [] (names dir) ++ [name]) := by
  have hchars : (dir ++ "/" ++ name).toList = dir.toList ++ '/' :: name.toList := by
    simp
  have hnames : names (dir ++ "/" ++ name) = names dir ++ [name] := by
    rw [names_of_toList_eq hchars, String.ofList_toList, String.ofList_toList,
      names_of_notMem hname.slash_notMem]
  have hrooted : isRooted (dir ++ "/" ++ name) = isRooted dir := by
    obtain ⟨c, cs, hcs⟩ := List.exists_cons_of_ne_nil (mt String.toList_eq_nil_iff.mp hdir)
    rw [isRooted, isRooted, hchars, hcs]
    rfl
  -- What is left of the path has no empty name, so putting it together adds no slash in front.
  have hparts : ∀ x ∈ straighten (isRooted dir) [] (names dir) ++ [name],
      x ≠ "" ∧ '/' ∉ x.toList := by
    intro x hx
    rcases List.mem_append.mp hx with hx | hx
    · have hup : ".." ≠ "" ∧ '/' ∉ "..".toList := by decide
      exact forall_mem_straighten (P := fun x => x ≠ "" ∧ '/' ∉ x.toList) hup (by simp)
        (fun y hy hne _ => ⟨hne, slash_notMem_of_mem_names hy⟩) x hx
    · rw [List.mem_singleton.mp hx]
      exact ⟨hname.ne_empty, hname.slash_notMem⟩
  rw [join, if_neg (by simpa using hdir), clean, hrooted, hnames,
    straighten_append_singleton hname.ne_empty hname.ne_here hname.ne_parent]
  obtain ⟨x, xs, hxs⟩ : ∃ x xs, straighten (isRooted dir) [] (names dir) ++ [name] = x :: xs :=
    List.exists_cons_of_ne_nil (by simp)
  rw [hxs] at hparts ⊢
  have hbody : names ("/".intercalate (x :: xs)) = x :: xs :=
    names_intercalate (List.cons_ne_nil _ _) fun y hy => (hparts y hy).2
  obtain ⟨hplain, hne⟩ := isRooted_eq_false hbody (hparts x List.mem_cons_self).1
  cases isRooted dir with
  | false =>
    simp only [Bool.false_eq_true, if_false, beq_iff_eq, hne]
    exact ⟨hplain, hbody⟩
  | true =>
    have hslash : ("/" ++ "/".intercalate (x :: xs)).toList =
        [] ++ '/' :: ("/".intercalate (x :: xs)).toList := by
      simp
    simp only [if_true]
    rw [names_of_toList_eq hslash, String.ofList_toList, hbody, isRooted, hslash]
    exact ⟨rfl, rfl⟩

/-- A path to something inside a folder leads inside the folder, if it leads anywhere. -/
theorem place_join {dir name : String} (hname : Proper name) (hdir : fs.place dir = .ok p)
    (h : fs.place (join dir name) = .ok q) : q = p ++ [name] := by
  obtain ⟨hne, -, hfollow⟩ := place_eq_ok_iff.mp hdir
  obtain ⟨-, -, hjoin⟩ := place_eq_ok_iff.mp h
  obtain ⟨hrooted, hnames⟩ := names_join hne hname
  have hstart : isRooted dir = true → fs.start dir = [] := fun hr => if_pos hr
  have hstraight : fs.follow (fs.start dir) (straighten (isRooted dir) [] (names dir)) = .ok p :=
    follow_straighten hstart (by simp) hfollow
  have hfolder : fs.follow (fs.start dir)
      (straighten (isRooted dir) [] (names dir) ++ [name]) = .ok q := by
    rw [start, hrooted, ← start, hnames] at hjoin
    cases hr : isRooted dir with
    | false => simpa [hr] using hjoin
    | true =>
      rw [hr, if_pos rfl, hstart hr, List.singleton_append, follow_cons rfl, if_pos (Or.inl rfl)]
        at hjoin
      rw [hstart hr]
      exact hjoin
  obtain ⟨p', hp', hlast⟩ := follow_append_eq_ok_iff.mp hfolder
  cases hstraight.symm.trans hp'
  rw [follow_cons (entryAt_of_follow_cons hlast), if_neg (by simp [hname.ne_empty, hname.ne_here]),
    if_neg hname.ne_parent] at hlast
  split at hlast
  · cases hlast
  · exact (Except.ok.inj hlast).symm

/-! ## Folders that are there -/

/-- The folders on the way to a path are the parts of it in front of slashes. -/
lemma of_mem_stagesGo {before cs : List Char} {s : String} (h : s ∈ stages.go before cs) :
    s.toList ≠ [] ∧ (s.toList = before ++ cs ∨ ∃ rest, before ++ cs = s.toList ++ '/' :: rest) := by
  induction cs generalizing before with
  | nil => cases h
  | cons c cs ih =>
    cases cs with
    | nil =>
      rw [stages.go] at h
      split at h
      · cases h
      · rw [List.mem_singleton.mp h, String.toList_ofList]
        exact ⟨by simp, Or.inl rfl⟩
    | cons d ds =>
      have happend : before ++ [c] ++ d :: ds = before ++ c :: d :: ds := by simp
      have hlater : s ∈ stages.go (before ++ [c]) (d :: ds) → _ := fun hs => happend ▸ ih hs
      rw [stages.go] at h
      split at h
      · rename_i hslash
        rw [Bool.and_eq_true, beq_iff_eq] at hslash
        rcases List.mem_cons.mp h with rfl | h
        · rw [String.toList_ofList]
          exact ⟨by simp, Or.inr ⟨ds, by simp [hslash.1]⟩⟩
        · exact hlater h
      · exact hlater h

/-- On the way to a folder there are folders. -/
lemma exists_folder_of_mem_stages {dir s : String} (hdir : fs.place dir = .ok p)
    (hfolder : fs.entryAt p = some .folder) (hs : s ∈ stages dir) :
    ∃ q, fs.place s = .ok q ∧ fs.entryAt q = some .folder := by
  obtain ⟨hne, hs⟩ := of_mem_stagesGo hs
  rcases hs with hs | ⟨rest, hs⟩
  · rw [String.toList_injective hs]
    exact ⟨p, hdir, hfolder⟩
  · obtain ⟨-, hchars, hfollow⟩ := place_eq_ok_iff.mp hdir
    rw [List.nil_append] at hs
    rw [names_of_toList_eq hs, String.ofList_toList] at hfollow
    obtain ⟨q, hq, hrest⟩ := follow_append_eq_ok_iff.mp hfollow
    have hstart : fs.start s = fs.start dir := by
      obtain ⟨c, cs, hcs⟩ := List.exists_cons_of_ne_nil hne
      rw [start, start, isRooted, isRooted, hs, hcs]
      rfl
    refine ⟨q, place_eq_ok_iff.mpr ⟨mt String.toList_eq_nil_iff.mpr hne, ?_, hstart ▸ hq⟩, ?_⟩
    · exact fun c hc => hchars c (hs ▸ List.mem_append_left _ hc)
    · obtain ⟨x, xs, hxs⟩ := List.exists_cons_of_ne_nil (names_ne_nil (String.ofList rest))
      rw [hxs] at hrest
      exact entryAt_of_follow_cons hrest

/-- Making a folder that is there changes nothing. -/
theorem makeFolders_of_folder {dir : String} (hdir : fs.place dir = .ok p)
    (hfolder : fs.entryAt p = some .folder) : fs.makeFolders dir = .ok fs := by
  have hstage : ∀ s ∈ stages dir, fs.makeFolder s = .ok fs := by
    intro s hs
    obtain ⟨q, hq, hfolder'⟩ := exists_folder_of_mem_stages hdir hfolder hs
    rw [makeFolder, hq]
    simp only [hfolder']
  rw [makeFolders]
  generalize stages dir = ss at hstage
  induction ss with
  | nil => rfl
  | cons s ss ih =>
    rw [List.foldlM_cons, hstage s List.mem_cons_self]
    exact ih fun s hs => hstage s (List.mem_cons_of_mem _ hs)

/-! ## What stands in a folder -/

/-- A tree without what stands at a place. -/
def without (fs : Files) (place : List String) : Files :=
  { fs with entries := fs.entries.filter fun x => x.1 != place }

/-- An entry by its name, if it stands directly in a folder. -/
def within? (p : List String) (x : List String × Entry) : Option (String × Entry) :=
  match x.1.getLast? with
  | some name => if x.1.dropLast == p then some (name, x.2) else none
  | none => none

/-- What stands directly in a folder, in the order of the entries. -/
def inside (fs : Files) (p : List String) : List (String × Entry) :=
  fs.entries.filterMap (within? p)

/-- Listing a folder puts in order what stands in it. -/
lemma children_perm (fs : Files) (p : List String) : (fs.children p).Perm (fs.inside p) :=
  List.mergeSort_perm _ _

/-- What stands in a folder has the path of the folder and a name behind it. -/
lemma within?_eq_some_iff {x : List String × Entry} {n : String} {e : Entry} :
    within? p x = some (n, e) ↔ x = (p ++ [n], e) := by
  obtain ⟨place, e'⟩ := x
  rcases List.eq_nil_or_concat place with rfl | ⟨xs, y, rfl⟩
  · simp [within?]
  · have hplace : List.concat xs y = p ++ [n] ↔ xs = p ∧ y = n := by
      rw [List.concat_eq_append, List.append_singleton_inj]
    rw [Prod.mk.injEq, hplace]
    by_cases hxs : xs = p <;> simp [within?, hxs]

/-- The entries of a folder are the entries of the tree at its path and a name. -/
lemma mem_inside_iff {n : String} {e : Entry} :
    (n, e) ∈ fs.inside p ↔ (p ++ [n], e) ∈ fs.entries := by
  simp only [inside, List.mem_filterMap, within?_eq_some_iff]
  exact ⟨fun ⟨x, hx, heq⟩ => heq ▸ hx, fun h => ⟨_, h, rfl⟩⟩

/-- Taking something out of a folder leaves the rest. -/
lemma inside_without (fs : Files) (p : List String) (n : String) :
    (fs.without (p ++ [n])).inside p = (fs.inside p).filter fun x => x.1 != n := by
  rw [inside, without, List.filterMap_filter, inside, List.filter_filterMap]
  congr 1
  funext x
  cases hx : within? p x with
  | none => simp
  | some y =>
    obtain ⟨m, e⟩ := y
    rw [within?_eq_some_iff.mp hx]
    by_cases hm : m = n <;> simp [hm, Option.filter]

/-- Putting something into a folder leaves the rest. -/
lemma inside_put (fs : Files) (p : List String) (n : String) (e : Entry) :
    (fs.put (p ++ [n]) e).inside p = ((fs.inside p).filter fun x => x.1 != n) ++ [(n, e)] := by
  have hnew : within? p (p ++ [n], e) = some (n, e) := within?_eq_some_iff.mpr rfl
  rw [← inside_without, inside, put, List.filterMap_append, List.filterMap_cons, hnew]
  rfl

/-- What is put at a place is there, and the same as before is at every other place. -/
lemma entryAt_put (hq : q ≠ []) (e : Entry) (r : List String) :
    (fs.put q e).entryAt r = if r = q then some e else fs.entryAt r := by
  rw [entryAt, put, lookup_filter_ne_append, entryAt]
  by_cases hr : r = []
  · simp [hr, hq.symm]
  · simp [hr]

/-- What is taken away from a place is not there, and the same as before is at every other place. -/
lemma entryAt_without (hq : q ≠ []) (r : List String) :
    (fs.without q).entryAt r = if r = q then none else fs.entryAt r := by
  rw [entryAt, without, lookup_filter_ne, entryAt]
  by_cases hr : r = []
  · simp [hr, hq.symm]
  · simp [hr]

/-- Putting a file where there is no folder leaves all folders there. -/
lemma entryAt_put_of_folder (hq : q ≠ []) (hnot : fs.entryAt q ≠ some .folder) (e : Entry)
    {r : List String} (hr : fs.entryAt r = some .folder) :
    (fs.put q e).entryAt r = some .folder := by
  have hne : r ≠ q := fun heq => hnot (heq.symm ▸ hr)
  rw [entryAt_put hq, if_neg hne, hr]

/-- Taking away what is no folder leaves all folders there. -/
lemma entryAt_without_of_folder (hq : q ≠ []) (hnot : fs.entryAt q ≠ some .folder)
    {r : List String} (hr : fs.entryAt r = some .folder) :
    (fs.without q).entryAt r = some .folder := by
  have hne : r ≠ q := fun heq => hnot (heq.symm ▸ hr)
  rw [entryAt_without hq, if_neg hne, hr]

/-- What stands at a place inside a folder is found there. -/
lemma mem_inside_of_entryAt {n : String} {e : Entry} (h : fs.entryAt (p ++ [n]) = some e) :
    (n, e) ∈ fs.inside p := by
  rw [entryAt, if_neg (by simp)] at h
  obtain ⟨before, after, hentries, -⟩ := List.lookup_eq_some_iff.mp h
  rw [mem_inside_iff, hentries]
  exact List.mem_append_right _ List.mem_cons_self

/-- Something stands at every place that is found inside a folder. -/
lemma exists_entryAt_of_mem {n : String} (h : n ∈ (fs.inside p).map (·.1)) :
    ∃ e, fs.entryAt (p ++ [n]) = some e := by
  obtain ⟨⟨n, e⟩, hmem, rfl⟩ := List.mem_map.mp h
  refine Option.ne_none_iff_exists'.mp fun hnone => ?_
  rw [entryAt, if_neg (by simp), List.lookup_eq_none_iff] at hnone
  simpa using hnone _ (mem_inside_iff.mp hmem)

/-! ## Writing and removing -/

/-- Writing a file puts it at the place to which the path leads, which is no folder. -/
lemma of_write {path text : String} (h : fs.write path text = .ok fs') :
    ∃ q, fs.place path = .ok q ∧ fs.entryAt q ≠ some .folder ∧
      (fs.entryAt q ≠ some .sink → fs' = fs.put q (.file text)) := by
  unfold write edit reopen at h
  cases hq : fs.place path with
  | error f =>
    rw [hq] at h
    cases h
  | ok q =>
    refine ⟨q, rfl, ?_⟩
    simp only [hq] at h
    cases he : fs.entryAt q with
    | none =>
      simp only [he, Except.ok.injEq] at h
      exact ⟨nofun, fun _ => h.symm⟩
    | some e =>
      cases e with
      | file old =>
        simp only [he, Except.ok.injEq] at h
        exact ⟨nofun, fun _ => h.symm⟩
      | folder => simp [he] at h
      | sink => exact ⟨nofun, fun hsink => absurd rfl hsink⟩
      | full => simp [he] at h

/-- Removing takes away what stands at the place to which the path leads. -/
lemma of_remove {path : String} (h : fs.remove path = .ok fs') :
    ∃ q, fs.place path = .ok q ∧ fs.entryAt q ≠ none ∧ fs' = fs.without q := by
  unfold remove at h
  cases hq : fs.place path with
  | error f =>
    rw [hq] at h
    cases h
  | ok q =>
    refine ⟨q, rfl, ?_⟩
    simp only [hq] at h
    split at h
    · cases h
    · rename_i he
      split at h
      · exact ⟨by simp [he], (Except.ok.inj h).symm⟩
      · cases h
    · rename_i he
      exact ⟨by simp [he], (Except.ok.inj h).symm⟩

/-- A file can be removed. -/
lemma remove_of_file {path text : String} (hq : fs.place path = .ok q)
    (he : fs.entryAt q = some (.file text)) : fs.remove path = .ok (fs.without q) := by
  rw [remove, hq]
  simp only [he]
  rfl

end TapeMachine.Files
