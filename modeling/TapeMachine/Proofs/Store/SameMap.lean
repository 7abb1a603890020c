import Mathlib.Data.List.Sort
import TapeMachine.Proofs.Store.Server
import TapeMachine.Proofs.Table.Bytes
import TapeMachine.Proofs.Table.Json

/-!
# Two stores that are the same map

A store in memory keeps copies of tables. A store on a key server keeps their JSON texts, each under
a key of its own, and beside them an index of the names. From outside there is no difference: after
the same requests both hold the same map from names to tables (`Shelf.Holds`, `Shared.Holds`), so
they answer the next request alike, and as the map does (`stores_are_same_map`).

The tables are those that operations on tables can make and that have an initial state or no
transitions; without an initial state, the JSON text of a table is refused. The clock of the server
is before the time at which the index takes names to be over.
-/

namespace TapeMachine

/-! ## Requests -/

/-- What a store can be asked to do. -/
inductive Ask where
  | save (name : Bytes) (t : Table)
  | load (name : Bytes)
  | delete (name : Bytes)
  | list

/-- Something a store is asked to do, by whom, and when. -/
structure Request where
  ask : Ask
  caller : Caller := .patient
  now : Int := 0

/-- What a store answers. -/
inductive Reply where
  | done (e : Option StoreError)
  | table (r : Except StoreError Table)
  | names (r : Except StoreError (List Bytes))

section

variable {σ : Type} [Redis.KeyServer σ]

/-- A store serves a request. -/
def Store.serve (s : Store σ) (r : Request) : Store σ × Reply :=
  match r.ask with
  | .save name t => (s.save r.caller name t r.now).map id .done
  | .load name => (s, .table (s.load r.caller name))
  | .delete name => (s.delete r.caller name).map id .done
  | .list => (s.list r.caller r.now).map id .names

/-- A store when it has served some requests, one after the other. -/
def Store.after (s : Store σ) (rs : List Request) : Store σ :=
  rs.foldl (fun s r => (s.serve r).1) s

end

/-! ## The map -/

/-- What is under each name. -/
abbrev Contents := Bytes → Option Table

/-- What is under each name when a request has been served. -/
def Contents.serve (m : Contents) (r : Request) : Contents :=
  match r.ask with
  | .save name t => Function.update m name (some t)
  | .delete name => Function.update m name none
  | _ => m

/-- What is under each name after some requests, if there was nothing before: the table that was
saved last, unless it was deleted since. -/
def contents (rs : List Request) : Contents :=
  rs.foldl Contents.serve fun _ => none

/-- What a map from names to tables answers. A table that is loaded is the same as the one that was
saved, and it can be changed; names are listed in the order of their bytes. -/
inductive Answers (m : Contents) : Ask → Reply → Prop
  | saved (name : Bytes) (t : Table) : Answers m (.save name t) (.done none)
  | deleted (name : Bytes) : Answers m (.delete name) (.done none)
  | missing {name : Bytes} (h : m name = none) :
      Answers m (.load name) (.table (.error .notFound))
  | found {name : Bytes} {t u : Table} (h : m name = some t) (hinitial : u.initial = t.initial)
      (hstates : u.states = t.states) (htransitions : u.transitions = t.transitions)
      (hopen : u.frozen = false) : Answers m (.load name) (.table (.ok u))
  | listed {names : List Bytes} (hmem : ∀ name, name ∈ names ↔ (m name).isSome)
      (horder : names.Pairwise (· < ·)) :
      Answers m .list (.names (.ok names))

/-- A table that can be written as JSON and read back. -/
def Table.Storable (t : Table) : Prop :=
  t.Reachable ∧ (t.initial ≠ "" ∨ t.transitions = [])

/-- The requests that are considered: the caller is there, the clock is before the time at which the
index takes names to be over, and a table that is saved can be read back. -/
structure Request.Allowed (r : Request) : Prop where
  present : r.caller.absent? = none
  early : r.now < Shared.farFuture
  storable : ∀ name t, r.ask = .save name t → t.Storable

/-! ## Lists of names -/

/-- A list of named things has each name that is in the map, once. -/
structure Lists {β : Type} (xs : List (Bytes × β)) (m : Contents) : Prop where
  nodup : (xs.map (·.1)).Nodup
  mem_iff : ∀ name, name ∈ xs.map (·.1) ↔ (m name).isSome

namespace Lists

variable {β : Type} {xs : List (Bytes × β)} {m : Contents}

/-- The order of the list does not matter. -/
lemma perm (h : Lists xs m) {ys : List (Bytes × β)} (hperm : ys.Perm xs) : Lists ys m :=
  ⟨(hperm.map _).nodup_iff.mpr h.nodup, fun name => (hperm.map _).mem_iff.trans (h.mem_iff name)⟩

/-- Taking a name out of the list takes it out of the map. -/
lemma delete (h : Lists xs m) (name : Bytes) :
    Lists (xs.filter fun x => x.1 != name) (Function.update m name none) := by
  refine ⟨nodup_keys_filter h.nodup _, fun other => ?_⟩
  rw [mem_keys_filter_ne, h.mem_iff, Function.update_apply]
  by_cases hother : other = name <;> simp [hother]

/-- Putting a name in anew, with something else, puts it into the map. -/
lemma save (h : Lists xs m) (name : Bytes) (b : β) (t : Table) :
    Lists ((xs.filter fun x => x.1 != name) ++ [(name, b)]) (Function.update m name (some t)) := by
  refine ⟨nodup_keys_filter_append h.nodup name b, fun other => ?_⟩
  rw [List.map_append, List.mem_append, mem_keys_filter_ne, h.mem_iff, Function.update_apply]
  by_cases hother : other = name <;> simp [hother]

/-- No name is in the list twice, so names in order are in strict order. -/
lemma pairwise_lt (h : Lists xs m) {names : List Bytes} (hperm : names.Perm (xs.map (·.1)))
    (hsorted : names.Pairwise (· ≤ ·)) : names.Pairwise (· < ·) := by
  have hnodup : names.Pairwise (· ≠ ·) := hperm.nodup_iff.mpr h.nodup
  exact hsorted.imp₂ (fun a b hle hne => Std.lt_of_le_of_ne hle hne) hnodup

end Lists

/-! ## The store in memory -/

/-- A shelf has copies of the tables of the map. -/
structure Shelf.Holds (s : Shelf) (m : Contents) : Prop where
  tables : ∀ name, s.load name = (m name).map Table.thaw
  names : Lists s.items m

namespace Shelf.Holds

variable {s : Shelf} {m : Contents}

/-- Saving a table updates the map at one name. -/
lemma save (h : s.Holds m) (name : Bytes) (t : Table) :
    (s.save name t.thaw).Holds (Function.update m name (some t)) := by
  refine ⟨fun other => ?_, h.names.save name t.thaw t⟩
  rw [load_save, Function.update_apply, h.tables]
  split <;> rfl

/-- Deleting a table takes one name out of the map. -/
lemma delete (h : s.Holds m) (name : Bytes) :
    (s.delete name).Holds (Function.update m name none) := by
  refine ⟨fun other => ?_, h.names.delete name⟩
  rw [load_delete, Function.update_apply, h.tables]
  split <;> rfl

/-- The names of a shelf are the names of the map, in order. -/
lemma names_spec (h : s.Holds m) :
    s.names.Pairwise (· < ·) ∧ ∀ name, name ∈ s.names ↔ (m name).isSome := by
  have hperm : s.names.Perm (s.items.map (·.1)) := List.mergeSort_perm _ _
  refine ⟨h.names.pairwise_lt hperm (List.pairwise_mergeSort' (· ≤ ·) _), fun name => ?_⟩
  rw [hperm.mem_iff, h.names.mem_iff]

end Shelf.Holds

/-! ## The store on a key server -/

open Redis

/-- Members that are sorted are in order. -/
lemma Redis.pairwise_mergeSort_goesBefore (ms : List (Bytes × Int)) :
    (ms.mergeSort goesBefore).Pairwise fun a b => goesBefore a b := by
  refine List.pairwise_mergeSort ?_ ?_ ms
  · intro a b c hab hbc
    simp only [goesBefore, Bool.or_eq_true, Bool.and_eq_true, decide_eq_true_eq, beq_iff_eq]
      at hab hbc ⊢
    rcases hab with hab | ⟨hab, hle⟩
    · exact Or.inl (by omega)
    · rcases hbc with hbc | ⟨hbc, hle'⟩
      · exact Or.inl (by omega)
      · exact Or.inr ⟨hab.trans hbc, Std.le_trans hle hle'⟩
  · intro a b
    simp only [goesBefore, Bool.or_eq_true, Bool.and_eq_true, decide_eq_true_eq, beq_iff_eq]
    rcases lt_trichotomy a.2 b.2 with hlt | heq | hgt
    · exact Or.inl (Or.inl hlt)
    · rcases Std.le_total (a := a.1) (b := b.1) with hle | hle
      · exact Or.inl (Or.inr ⟨heq, hle⟩)
      · exact Or.inr (Or.inr ⟨heq.symm, hle⟩)
    · exact Or.inr (Or.inl hgt)

/-- Where all scores are equal, the members go by name. -/
lemma Redis.pairwise_map_fst {ms : List (Bytes × Int)} {score : Int} (h : ∀ x ∈ ms, x.2 = score)
    (horder : ms.Pairwise fun a b => goesBefore a b) : (ms.map (·.1)).Pairwise (· ≤ ·) := by
  refine List.pairwise_map.mpr (horder.imp_of_mem fun {a b} ha hb hab => ?_)
  simpa [goesBefore, h a ha, h b hb] using hab

/-- A ranking has the names of the map, in order, and none of them is over soon. -/
structure Indexes (ms : List (Bytes × Int)) (m : Contents) : Prop where
  lists : Lists ms m
  scores : ∀ x ∈ ms, x.2 = Shared.farFuture
  order : ms.Pairwise fun a b => goesBefore a b

namespace Indexes

variable {ms : List (Bytes × Int)} {m : Contents}

/-- A name with a score in the far future goes into the index. -/
lemma save (h : Indexes ms m) (name : Bytes) (t : Table) :
    Indexes ((ms.filter (fun x => x.1 != name) ++ [(name, Shared.farFuture)]).mergeSort goesBefore)
      (Function.update m name (some t)) := by
  have hperm := List.mergeSort_perm
    (ms.filter (fun x => x.1 != name) ++ [(name, Shared.farFuture)]) goesBefore
  refine ⟨(h.lists.save name _ t).perm hperm, fun x hx => ?_, pairwise_mergeSort_goesBefore _⟩
  rcases List.mem_append.mp (hperm.mem_iff.mp hx) with hx | hx
  · exact h.scores x (List.mem_of_mem_filter hx)
  · rw [List.mem_singleton.mp hx]

/-- A name goes out of the index. -/
lemma delete (h : Indexes ms m) (name : Bytes) :
    Indexes (ms.filter fun x => x.1 != name) (Function.update m name none) :=
  ⟨h.lists.delete name, fun x hx => h.scores x (List.mem_of_mem_filter hx), h.order.filter _⟩

/-- The names of the index are those of the map, in order. -/
lemma names_spec (h : Indexes ms m) :
    (ms.map (·.1)).Pairwise (· < ·) ∧ ∀ name, name ∈ ms.map (·.1) ↔ (m name).isSome :=
  ⟨h.lists.pairwise_lt (.refl _) (pairwise_map_fst h.scores h.order), h.lists.mem_iff⟩

end Indexes

/-- A server has the JSON texts of the tables of the map under their keys, and their names in the
index. -/
structure Shared.Holds {σ : Type} [KeyServer σ] (k : Shared) (s : σ) (m : Contents) : Prop where
  works : KeyServer.Works s
  tables : ∀ name, textAt (KeyServer.slot? s (k.tableKey name)) =
    .ok ((m name).map fun t => t.toJson.render)
  index : ∃ ms, rankingAt (KeyServer.slot? s k.indexKey) = .ok ms ∧ Indexes ms m

namespace Shared.Holds

open KeyServer

variable {σ : Type} [KeyServer σ] [LawfulKeyServer σ] {k : Shared} {s : σ} {m : Contents}
  {caller : Caller}

/-- Where the text under the key of a table is changed as the map is, and the index along with it,
the server holds the map again. -/
lemma exists_transact (h : k.Holds s m) (hcaller : caller.absent? = none) (name : Bytes)
    (new : Option Table) (c₁ c₂ : Command) {change : List (Bytes × Int) → List (Bytes × Int)}
    (hdone : ∀ x, (c₁.act x).2 = .ok .done)
    (htext : ∀ x, textAt (c₁.act x).1 = .ok (new.map fun t => t.toJson.render))
    (hact : ∀ x, c₂.act x = changeRanking x change)
    (hindex : ∀ ms, Indexes ms m → Indexes (change ms) (Function.update m name new)) :
    ∃ s', transact s caller [(k.tableKey name, c₁), (k.indexKey, c₂)] = (s', none) ∧
      k.Holds s' (Function.update m name new) := by
  obtain ⟨ms, hms, hindexes⟩ := h.index
  obtain ⟨hranking, hchanged⟩ := rankingAt_changeRanking hms change
  rw [← hact] at hranking hchanged
  obtain ⟨s', hrun, hworks, hslots⟩ := KeyServer.exists_transact h.works hcaller
    (k.keysApart.table_ne_index name) c₁ c₂ (hdone _) hchanged
  refine ⟨s', hrun, hworks, fun other => ?_, _, ?_, hindex ms hindexes⟩
  · rw [hslots, if_neg (k.keysApart.table_ne_index other), Function.update_apply]
    simp only [k.keysApart.table_injective.eq_iff]
    split
    · exact htext _
    · exact h.tables other
  · rw [hslots, if_pos rfl]
    exact hranking

/-- Saving puts the text under the key and the name into the index. -/
lemma save (h : k.Holds s m) (hlife : k.life = 0) (hcaller : caller.absent? = none) (name : Bytes)
    (t : Table) (now : Int) :
    ∃ s', k.save s caller name t now = (s', none) ∧
      k.Holds s' (Function.update m name (some t)) := by
  have hscore : k.score now = farFuture := if_pos hlife
  obtain ⟨s', hrun, hholds⟩ := h.exists_transact hcaller name (some t)
    (.set t.toJson.render (term? k.life)) (.rank name farFuture)
    (fun _ => rfl) (fun _ => rfl) (fun _ => rfl) fun ms hms => hms.save name t
  refine ⟨s', ?_, hholds⟩
  simp only [Shared.save, Shared.saveText, hscore, hrun, Option.map_none]

/-- Deleting takes the text from the key and the name out of the index. -/
lemma delete (h : k.Holds s m) (hcaller : caller.absent? = none) (name : Bytes) :
    ∃ s', k.delete s caller name = (s', none) ∧ k.Holds s' (Function.update m name none) := by
  obtain ⟨s', hrun, hholds⟩ := h.exists_transact hcaller name none .delete (.unrank name)
    (fun _ => rfl) (fun _ => rfl) (fun _ => rfl) fun ms hms => hms.delete name
  exact ⟨s', by simp only [Shared.delete, hrun, Option.map_none], hholds⟩

/-- Loading reads the text back. -/
lemma load (h : k.Holds s m) (hcaller : caller.absent? = none) (name : Bytes)
    (hm : ∀ t, m name = some t → t.Storable) :
    k.load s caller name = (match m name with
      | some t => .ok t.thaw
      | none => .error .notFound) := by
  have htext := h.tables name
  rw [Shared.load, LawfulKeyServer.reply_run s caller _ .get h.works hcaller, Command.act, htext]
  cases ht : m name with
  | none => rfl
  | some t =>
    obtain ⟨hreachable, hinitial⟩ := hm t ht
    simp only [Option.map_some, Except.map, Option.elim_some,
      Table.readJson_render hreachable.wellFormed hinitial]

/-- Listing takes no name out of the index, and answers with the names in order. -/
lemma list (h : k.Holds s m) (hcaller : caller.absent? = none) {now : Int}
    (hnow : now < farFuture) :
    ∃ s' names, k.list s caller now = (s', .ok names) ∧ k.Holds s' m ∧
      names.Pairwise (· < ·) ∧ ∀ name, name ∈ names ↔ (m name).isSome := by
  obtain ⟨ms, hms, hindexes⟩ := h.index
  have hkept : (ms.filter fun x => now < x.2) = ms := by
    refine List.filter_eq_self.mpr fun x hx => ?_
    rw [hindexes.scores x hx]
    exact decide_eq_true hnow
  obtain ⟨hranking, hdone⟩ := rankingAt_changeRanking hms fun ms => ms.filter fun x => now < x.2
  rw [hkept] at hranking
  obtain ⟨s₁, hprune, hworks₁, hslots₁⟩ := exists_run h.works hcaller k.indexKey (.prune now)
  obtain ⟨s₂, hmembers, hworks₂, hslots₂⟩ := exists_run hworks₁ hcaller k.indexKey .members
  have hindex₁ : rankingAt (slot? s₁ k.indexKey) = .ok ms := by
    rw [hslots₁, if_pos rfl]
    exact hranking
  have hindex₂ : rankingAt (slot? s₂ k.indexKey) = .ok ms := by
    rw [hslots₂, if_pos rfl]
    exact hindex₁
  refine ⟨s₂, ms.map (·.1), ?_, ⟨hworks₂, fun name => ?_, ms, hindex₂, hindexes⟩,
    hindexes.names_spec⟩
  · simp only [Shared.list, hprune, hmembers, Command.act, hdone, hindex₁, Except.map]
  · have hne := k.keysApart.table_ne_index name
    rw [hslots₂, if_neg hne, hslots₁, if_neg hne, h.tables]

end Shared.Holds

/-! ## Both stores -/

section

variable {σ : Type} [KeyServer σ]

/-- Two stores, one in memory and one on a server, that hold the same map. -/
structure BothHold (k : Shared) (shelf : Shelf) (s : σ) (m : Contents) : Prop where
  memory : shelf.Holds m
  server : k.Holds s m
  storable : ∀ name t, m name = some t → t.Storable

namespace BothHold

variable {k : Shared} {shelf : Shelf} {s : σ} {m : Contents}

/-- The tables of the map stay such that they can be read back. -/
lemma storable_update (h : BothHold k shelf s m) (name : Bytes) {new : Option Table}
    (hnew : ∀ t, new = some t → t.Storable) :
    ∀ other t, Function.update m name new other = some t → t.Storable := by
  intro other t ht
  rw [Function.update_apply] at ht
  split at ht
  · exact hnew t ht
  · exact h.storable other t ht

variable [LawfulKeyServer σ]

/-- Serving one request: the two stores answer alike, and as the map does, and then they hold the
same map again. -/
theorem serve (h : BothHold k shelf s m) (hlife : k.life = 0) {r : Request} (hr : r.Allowed) :
    ∃ shelf' s' reply, (Store.memory shelf : Store σ).serve r = (.memory shelf', reply) ∧
      (Store.redis k s).serve r = (.redis k s', reply) ∧ Answers m r.ask reply ∧
      BothHold k shelf' s' (m.serve r) := by
  obtain ⟨ask, caller, now⟩ := r
  have hcaller : caller.absent? = none := hr.present
  cases ask with
  | save name t =>
    have ht : t.Storable := hr.storable name t rfl
    obtain ⟨s', hs', hholds⟩ := h.server.save hlife hcaller name t now
    refine ⟨_, s', .done none, rfl, ?_, .saved name t, h.memory.save name t, hholds,
      h.storable_update name fun u hu => Option.some_inj.mp hu ▸ ht⟩
    simp [Store.serve, Store.save, hs']
  | load name =>
    have hload := h.server.load hcaller name (h.storable name)
    have hshelf := h.memory.tables name
    cases hm : m name with
    | none =>
      rw [hm] at hload hshelf
      refine ⟨shelf, s, .table (.error .notFound), ?_, ?_, .missing hm, h⟩
      · simp [Store.serve, Store.load, hshelf]
      · simp [Store.serve, Store.load, hload]
    | some t =>
      rw [hm] at hload hshelf
      refine ⟨shelf, s, .table (.ok t.thaw), ?_, ?_, .found hm rfl rfl rfl rfl, h⟩
      · simp [Store.serve, Store.load, hshelf]
      · simp [Store.serve, Store.load, hload]
  | delete name =>
    obtain ⟨s', hs', hholds⟩ := h.server.delete hcaller name
    refine ⟨_, s', .done none, rfl, ?_, .deleted name, h.memory.delete name, hholds,
      h.storable_update name fun u hu => by cases hu⟩
    simp [Store.serve, Store.delete, hs']
  | list =>
    obtain ⟨s', names, hs', hholds, horder, hmem⟩ := h.server.list hcaller hr.early
    obtain ⟨horder', hmem'⟩ := h.memory.names_spec
    -- Both lists are in order and have the names of the map, so they are one list.
    have hnames : shelf.names = names :=
      horder'.eq_of_mem_iff horder fun name => (hmem' name).trans (hmem name).symm
    refine ⟨shelf, s', .names (.ok names), ?_, ?_, .listed hmem ?_, h.memory, hholds, h.storable⟩
    · simp [Store.serve, Store.list, hnames]
    · simp [Store.serve, Store.list, hs']
    · exact horder

/-- After any number of requests the two stores hold the same map. -/
theorem after (h : BothHold k shelf s m) (hlife : k.life = 0) {rs : List Request}
    (hrs : ∀ r ∈ rs, r.Allowed) :
    ∃ shelf' s', (Store.memory shelf : Store σ).after rs = .memory shelf' ∧
      (Store.redis k s).after rs = .redis k s' ∧
      BothHold k shelf' s' (rs.foldl Contents.serve m) := by
  induction rs generalizing shelf s m with
  | nil => exact ⟨shelf, s, rfl, rfl, h⟩
  | cons r rs ih =>
    obtain ⟨shelf', s', reply, hmemory, hserver, -, hnext⟩ :=
      h.serve hlife (hrs r List.mem_cons_self)
    obtain ⟨shelf'', s'', hmemory', hserver', hlast⟩ :=
      ih hnext fun r hr => hrs r (List.mem_cons_of_mem _ hr)
    refine ⟨shelf'', s'', ?_, ?_, hlast⟩
    · rw [Store.after, List.foldl_cons, hmemory]
      exact hmemory'
    · rw [Store.after, List.foldl_cons, hserver]
      exact hserver'

end BothHold

/-- A server that works and of which the store has used no key. -/
structure Shared.Unused (k : Shared) (s : σ) : Prop where
  works : KeyServer.Works s
  tables : ∀ name, KeyServer.slot? s (k.tableKey name) = none
  index : KeyServer.slot? s k.indexKey = none

/-- An empty shelf and an unused server hold the same map. -/
lemma Shared.Unused.bothHold {k : Shared} {s : σ} (h : k.Unused s) :
    BothHold k {} s fun _ => none := by
  have hlists : ∀ β : Type, Lists ([] : List (Bytes × β)) fun _ => none :=
    fun β => ⟨List.nodup_nil, fun name => by simp⟩
  refine ⟨⟨fun name => rfl, hlists Table⟩,
    ⟨h.works, fun name => textAt_eq_none_iff.mpr (h.tables name), [], ?_, hlists Int, ?_, .nil⟩,
    ?_⟩
  · rw [h.index]
    rfl
  · intro x hx
    cases hx
  · intro name t ht
    cases ht

/-- After the same requests, a store in memory and a store on a key server where tables live for
ever answer the next request alike, and they answer as a map from names to tables does. However the
keys of the store start, none of them is in the way of another. -/
theorem stores_are_same_map [LawfulKeyServer σ] {k : Shared} (hlife : k.life = 0) {s : σ}
    (hs : k.Unused s) {before : List Request} (hbefore : ∀ r ∈ before, r.Allowed) {r : Request}
    (hr : r.Allowed) :
    (((Store.redis k s).after before).serve r).2 =
        (((Store.memory {} : Store σ).after before).serve r).2 ∧
      Answers (contents before) r.ask (((Store.memory {} : Store σ).after before).serve r).2 ∧
      k.KeysApart := by
  obtain ⟨shelf', s', hmemory, hserver, hboth⟩ := hs.bothHold.after hlife hbefore
  obtain ⟨_, _, reply, hreply, hreply', hanswers, -⟩ := hboth.serve hlife hr
  rw [hmemory, hserver, hreply, hreply']
  exact ⟨rfl, hanswers, k.keysApart⟩

end

/-- A table of two states. -/
def turnstile : Table :=
  Table.empty.perform
    (.addAll [⟨"locked", "1", "_", "r", "open"⟩, ⟨"open", "*", "*", "r", "locked"⟩])

/-- A server on which somebody has a lock. -/
def lockedServer (k : Shared) : Server :=
  { slots := [(k.lockKey "gate", ⟨.text "7", none⟩)] }

/-- A table is saved under two names, one of which needs quoting in JSON, and deleted under the
other. -/
def gateRequests : List Request :=
  [⟨.save "gate" turnstile, .patient, 0⟩, ⟨.save "\"north\" gate" turnstile, .patient, 1⟩,
    ⟨.delete "gate", .hurried 3, 2⟩, ⟨.list, .patient, 3⟩]

/-- The table is still there under the name that was not deleted, although a lock stands beside it.
-/
theorem stores_are_same_map_turnstile :
    (∀ r ∈ gateRequests, r.Allowed) ∧
      (((Store.redis {} (lockedServer {})).after gateRequests).serve
        ⟨.load "\"north\" gate", .patient, 4⟩).2 = .table (.ok turnstile.thaw) := by
  have hstorable : turnstile.Storable := ⟨.step .empty _, Or.inl (by decide)⟩
  have hallowed : ∀ r ∈ gateRequests, r.Allowed := by
    intro r hr
    simp only [gateRequests, List.mem_cons, List.not_mem_nil, or_false] at hr
    rcases hr with rfl | rfl | rfl | rfl
    · exact ⟨rfl, by decide, fun name t h => (Ask.save.inj h).2 ▸ hstorable⟩
    · exact ⟨rfl, by decide, fun name t h => (Ask.save.inj h).2 ▸ hstorable⟩
    · exact ⟨rfl, by decide, fun name t h => by cases h⟩
    · exact ⟨rfl, by decide, fun name t h => by cases h⟩
  have hunused : Shared.Unused {} (lockedServer {}) := by
    refine ⟨rfl, fun name => ?_, by decide⟩
    have hne := beq_eq_false_iff_ne.mpr ((Shared.keysApart {}).table_ne_lock name "gate")
    change (lockedServer {}).slot? _ = none
    rw [Server.slot?, lockedServer, List.lookup_cons, hne]
    rfl
  have hload : Request.Allowed ⟨.load "\"north\" gate", .patient, 4⟩ :=
    ⟨rfl, by decide, fun name t h => by cases h⟩
  exact ⟨hallowed, (stores_are_same_map rfl hunused hallowed hload).1⟩

/-! ## Tables of bytes -/

/-- A transition that reads and writes a byte which belongs to no character. -/
def strayRule : ByteTransition := ⟨"a", [0xff], [0xff], "*", "halt"⟩

/-- The table of that transition. -/
def strayTable : ByteTable := ({} : ByteTable).insert strayRule

/-- The table as it comes back from JSON text. -/
def replacedTable : Table :=
  { initial := "a", groups := [("a", [⟨"a", "\ufffd", "\ufffd", "*", "halt"⟩])] }

/-- Where symbols may be such bytes, the stores are not the same map: a table with one of them comes
back from memory as it was saved, and from a key server with other symbols. -/
theorem stray_symbols_change_on_server :
    ({} : ByteTable).add strayRule = some strayTable ∧ strayTable.initial ≠ [] ∧
      (({} : Shelf ByteTable).save "a" strayTable.thaw).load "a" = some strayTable ∧
      ∃ s : Server, Shared.saveText {} {} .patient "a" strayTable.toJson.render = (s, none) ∧
        Shared.load {} s .patient "a" = .ok replacedTable ∧
        (ByteTable.ofTable replacedTable).transitions ≠ strayTable.transitions := by
  have hmemory : (({} : Shelf ByteTable).save "a" strayTable.thaw).load "a" = some strayTable := by
    rw [Shelf.load_save, if_pos rfl]
    rfl
  let s : Server := (Shared.saveText {} {} .patient "a" strayTable.toJson.render).1
  have hload : (Shared.load {} s .patient "a").toOption = some replacedTable := by
    decide +kernel
  refine ⟨if_neg (by decide), by decide, hmemory, s, rfl, ?_, by decide⟩
  unfold Except.toOption at hload
  split at hload
  · rename_i t ht
    rw [ht, Option.some.inj hload]
  · cases hload

end TapeMachine
