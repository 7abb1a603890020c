import Mathlib.Tactic.Common
import TapeMachine.Config

/-!
# Environment variables over a settings file

A `Setting` has a place in the settings file, a way to read its value and a place among the loaded
settings. The variable for a place puts its text there and leaves what stands at all other places as
it was (`Place.value?_lay_self`, `Place.value?_lay_of_ne`). So after all variables have been laid
over a file, every place has the text of its own variable or else what the file says there
(`value?_foldl_lay`).

There is one way in which an overlay can hide something. A variable for the store makes a member
`store`, and a file may have one whose name differs from that in case, which is then no longer meant
by the key. Members without such a name are `Uniform`.
-/

namespace TapeMachine.Config

open Text (Json)

/-! ## Members -/

/-- A key without capital letters, as those of all settings are. -/
def IsSmall (key : String) : Prop :=
  key.toList.map Json.foldChar = key.toList

instance (key : String) : Decidable (IsSmall key) :=
  inferInstanceAs (Decidable (_ = _))

/-- A name stands for at most one such key. -/
lemma IsSmall.eq_of_namesField {key other name : String} (hkey : IsSmall key)
    (hother : IsSmall other) (h : Json.namesField key name = true)
    (h' : Json.namesField other name = true) : key = other := by
  have hfold : ∀ {k : String}, IsSmall k → Json.namesField k name = true →
      k.toList = name.toList.map Json.foldChar := by
    intro k hk hnames
    simp only [Json.namesField, Bool.or_eq_true, beq_iff_eq] at hnames
    rcases hnames with rfl | hnames
    · exact hk.symm
    · exact hnames
  exact String.toList_inj.mp ((hfold hkey h).trans (hfold hother h').symm)

/-- A name of small letters names no field but its own. -/
lemma IsSmall.namesField_eq_false {key other : String} (hkey : IsSmall key)
    (hother : IsSmall other) (hne : key ≠ other) : Json.namesField key other = false := by
  rw [← Bool.not_eq_true]
  intro h
  exact hne (hkey.eq_of_namesField hother h (by simp [Json.namesField]))

section Members

variable {ms : List (String × Value)} {name key : String} {v : Value}

/-- A search by name that passes over a name does not notice a member with it. -/
lemma find?_putMember {p : String → Bool} (hp : p name = false) :
    (putMember ms name v).find? (fun m => p m.1) = ms.find? (fun m => p m.1) := by
  unfold putMember
  split
  · rename_i hany
    clear hany
    induction ms with
    | nil => rfl
    | cons m ms ih =>
      obtain ⟨k, w⟩ := m
      rw [List.map_cons, List.find?_cons, List.find?_cons, ih]
      by_cases hk : k = name
      · simp [hk, hp]
      · simp [hk]
  · rw [List.find?_append]
    simp [hp]

/-- A member that was put in is found under its name. -/
lemma find?_putMember_self :
    (putMember ms name v).find? (fun m => m.1 == name) = some (name, v) := by
  unfold putMember
  split
  · rename_i hany
    induction ms with
    | nil => cases hany
    | cons m ms ih =>
      obtain ⟨k, w⟩ := m
      rw [List.map_cons, List.find?_cons]
      by_cases hk : k = name
      · simp [hk]
      · have hms : ms.any (fun m => m.1 == name) = true := by simpa [hk] using hany
        simp only [beq_eq_false_iff_ne.mpr hk, Bool.false_eq_true, if_false]
        exact ih hms
  · rename_i hany
    have hnone : ms.find? (fun m => m.1 == name) = none := by
      rw [List.find?_eq_none]
      intro m hm heq
      exact hany (List.any_eq_true.mpr ⟨m, hm, heq⟩)
    rw [List.find?_append, hnone]
    simp

/-- A member that has been put is found under its name. -/
lemma memberFor_putMember_self : memberFor (putMember ms name v) name = some (name, v) := by
  rw [memberFor, find?_putMember_self]

/-- Another key means the same member as before. -/
lemma memberFor_putMember_of_ne (hkey : IsSmall key) (hname : IsSmall name) (hne : key ≠ name) :
    memberFor (putMember ms name v) key = memberFor ms key := by
  have hexact : (name == key) = false := beq_eq_false_iff_ne.mpr hne.symm
  rw [memberFor, find?_putMember (p := (· == key)) hexact,
    find?_putMember (hkey.namesField_eq_false hname hne)]
  rfl

/-- Putting a member brings in no other. -/
lemma of_mem_putMember {m : String × Value} (h : m ∈ putMember ms name v) :
    m ∈ ms ∨ m = (name, v) := by
  unfold putMember at h
  split at h
  · obtain ⟨m', hm', rfl⟩ := List.mem_map.mp h
    split
    · exact .inr rfl
    · exact .inl hm'
  · exact (List.mem_append.mp h).imp_right List.mem_singleton.mp

/-- The name of a member that was put in is a name, and so are the old ones. -/
lemma mem_names_putMember {n : String} (h : n ∈ ms.map Prod.fst ∨ n = name) :
    n ∈ (putMember ms name v).map Prod.fst := by
  by_cases hn : n = name
  · subst hn
    exact List.mem_map.mpr ⟨_, List.mem_of_find?_eq_some find?_putMember_self, rfl⟩
  · obtain ⟨m, hm, rfl⟩ := List.mem_map.mp (h.resolve_right hn)
    unfold putMember
    split
    · refine List.mem_map.mpr ⟨m, List.mem_map.mpr ⟨m, hm, ?_⟩, rfl⟩
      rw [beq_eq_false_iff_ne.mpr hn]
      rfl
    · exact List.mem_map_of_mem (List.mem_append_left _ hm)

/-- A key that is the name of a member means a member with this name. -/
lemma exists_memberFor_of_mem (h : key ∈ ms.map Prod.fst) :
    ∃ v, memberFor ms key = some (key, v) := by
  obtain ⟨m, hm, rfl⟩ := List.mem_map.mp h
  have hsome : (ms.find? fun n => n.1 == m.1).isSome = true :=
    List.find?_isSome.mpr ⟨m, hm, beq_self_eq_true m.1⟩
  obtain ⟨⟨k, v⟩, hfind⟩ := Option.isSome_iff_exists.mp hsome
  have hfound := List.find?_some hfind
  have hk : k = m.1 := by simpa using hfound
  subst hk
  exact ⟨v, by rw [memberFor, hfind]⟩

/-- The member that is meant by a key has a name that stands for it. -/
lemma namesField_of_memberFor {n : String} (h : memberFor ms key = some (n, v)) :
    Json.namesField key n = true := by
  unfold memberFor at h
  split at h
  · rename_i m hfind
    cases h
    have hfound := List.find?_some hfind
    have hn : n = key := by simpa using hfound
    simp [Json.namesField, hn]
  · have hfound := List.find?_some h
    exact hfound

/-- Looking up a name finds the first member that has it. -/
lemma lookup_eq_find? : ms.lookup key = (ms.find? fun m => m.1 == key).map Prod.snd := by
  induction ms with
  | nil => rfl
  | cons m ms ih =>
    obtain ⟨k, w⟩ := m
    rw [List.lookup_cons, List.find?_cons, ih]
    by_cases hk : k = key
    · simp [hk]
    · rw [beq_eq_false_iff_ne.mpr hk, beq_eq_false_iff_ne.mpr (Ne.symm hk)]

end Members

/-! ## Places of settings -/

/-- What a value says, unless it is `null`. -/
def Value.given? : Value → Option Value
  | .nothing => none
  | v => some v

/-- What members say under a key. -/
def given? (ms : List (String × Value)) (key : String) : Option Value :=
  (memberFor ms key).bind fun m => m.2.given?

/-- The members of the store. -/
def storeMembers (ms : List (String × Value)) : List (String × Value) :=
  match memberFor ms "store" with
  | some (_, .mapping inner _) => inner
  | _ => []

/-- Where a setting stands in a file. -/
inductive Place where
  | top (key : String)
  | inStore (key : String)
deriving DecidableEq

namespace Place

/-- The key of the setting at a place. -/
def key : Place → String
  | top key => key
  | inStore key => "store." ++ key

/-- What members say at a place. -/
def value? : Place → List (String × Value) → Option Value
  | top key, ms => given? ms key
  | inStore key, ms => given? (storeMembers ms) key

/-- The environment variable for a place, if it is set. -/
def override? (env : List (String × String)) (p : Place) : Option String :=
  env.lookup (environmentName p.key)

/-- A place of a setting that can be told from the others. -/
def Proper : Place → Prop
  | top key => IsSmall key ∧ key ≠ "store"
  | inStore key => IsSmall key

instance : (p : Place) → Decidable p.Proper
  | top key => inferInstanceAs (Decidable (IsSmall key ∧ key ≠ "store"))
  | inStore key => inferInstanceAs (Decidable (IsSmall key))

end Place

/-- A part of a record: its key, what it makes of a value, and where the record keeps it. -/
structure Part (α : Type) where
  key : String
  {β : Type}
  read : Value → Option β
  get : α → β

/-- The parts of the settings, but for the store. -/
def topParts (d : Decoder) : List (Part Config) :=
  [⟨"program", d.text?, Config.program⟩,
    ⟨"inputs", d.texts?, Config.inputs⟩,
    ⟨"output", d.text?, Config.output⟩,
    ⟨"start", d.text?, Config.start⟩,
    ⟨"max_steps", d.integer?, Config.maxSteps⟩,
    ⟨"timeout", d.duration?, Config.timeout⟩,
    ⟨"parallel", d.integer?, Config.parallel⟩,
    ⟨"sorted_tape", d.bool?, Config.sortedTape⟩,
    ⟨"log_level", d.text?, Config.logLevel⟩,
    ⟨"log_file", d.text?, Config.logFile⟩,
    ⟨"listen", d.text?, Config.listen⟩]

/-- The parts of the settings of a store. -/
def storeParts (d : Decoder) : List (Part StoreSettings) :=
  [⟨"kind", d.text?, StoreSettings.kind⟩,
    ⟨"dir", d.text?, StoreSettings.dir⟩,
    ⟨"redis_addr", d.text?, StoreSettings.address⟩,
    ⟨"redis_password", d.text?, StoreSettings.password⟩,
    ⟨"redis_db", d.integer?, StoreSettings.database⟩,
    ⟨"prefix", d.text?, StoreSettings.keyStart⟩,
    ⟨"ttl", d.duration?, StoreSettings.life⟩]

/-- A setting: where it stands, what it makes of a value, and where it is kept. -/
structure Setting where
  place : Place
  {β : Type}
  read : Value → Option β
  get : Config → β

/-- All settings. -/
def settings (d : Decoder) : List Setting :=
  (topParts d).map (fun x => ⟨.top x.key, x.read, x.get⟩) ++
    (storeParts d).map (fun x => ⟨.inStore x.key, x.read, fun c => x.get c.store⟩)

/-- The keys of the settings, but for the store. -/
def topKeys : List String :=
  ["program", "inputs", "output", "start", "max_steps", "timeout", "parallel", "sorted_tape",
    "log_level", "log_file", "listen"]

/-- The keys of the settings of a store. -/
def storeKeys : List String :=
  ["kind", "dir", "redis_addr", "redis_password", "redis_db", "prefix", "ttl"]

/-- The places of all settings. -/
def places : List Place :=
  topKeys.map .top ++ storeKeys.map .inStore

/-- Whatever the settings make of values, they stand at these places. -/
lemma map_place_settings (d : Decoder) : (settings d).map Setting.place = places := rfl

/-- The settings are those that environment variables can set. -/
lemma map_key_places : places.map Place.key = environmentKeys := by decide

/-- No two settings have the same place. -/
lemma nodup_places : places.Nodup := by decide

/-- Every place has a key of small letters, and no place but the store is called so. -/
lemma proper_places : ∀ p ∈ places, p.Proper := by decide

/-! ## Laying environment variables over a file -/

section Put

variable {ms : List (String × Value)} {name key : String} {v : Value}

/-- What has been put under a key is given for it. -/
lemma given?_putMember_self (text : String) :
    given? (putMember ms key (.text text)) key = some (.text text) := by
  rw [given?, memberFor_putMember_self]
  rfl

/-- Putting a member leaves what is given for other keys. -/
lemma given?_putMember_of_ne (hkey : IsSmall key) (hname : IsSmall name) (hne : key ≠ name) :
    given? (putMember ms name v) key = given? ms key := by
  rw [given?, memberFor_putMember_of_ne hkey hname hne, given?]

/-- What has been put as the store is the store. -/
lemma storeMembers_putMember_self (inner : List (String × Value)) (keys : Keys) :
    storeMembers (putMember ms "store" (.mapping inner keys)) = inner := by
  rw [storeMembers, memberFor_putMember_self]

/-- Putting another member leaves the store. -/
lemma storeMembers_putMember_of_ne (hname : IsSmall name) (hne : name ≠ "store") :
    storeMembers (putMember ms name v) = storeMembers ms := by
  rw [storeMembers, memberFor_putMember_of_ne (by decide) hname hne.symm, storeMembers]

end Put

/-- Keys of mappings in a JSON file are texts. -/
def Textual (ms : List (String × Value)) : Prop :=
  ∀ m ∈ ms, ∀ inner keys, m.2 = .mapping inner keys → keys = .textual

/-- Only a member `store` is meant by this key. -/
def Uniform (ms : List (String × Value)) : Prop :=
  ∀ m ∈ ms, Json.namesField "store" m.1 = true → m.1 = "store"

/-- The members that a text for the store is put to. -/
def storeRoom (ms : List (String × Value)) : List (String × Value) :=
  match ms.lookup "store" with
  | some (.mapping inner .textual) => inner
  | _ => []

/-- A text for the store is put to what the file says about the store. -/
lemma storeRoom_eq {ms : List (String × Value)} (ht : Textual ms) (hu : Uniform ms) :
    storeRoom ms = storeMembers ms := by
  rw [storeRoom, storeMembers, memberFor, lookup_eq_find?]
  cases hfind : ms.find? (fun m => m.1 == "store") with
  | some m =>
    obtain ⟨k, v⟩ := m
    cases v with
    | mapping inner keys =>
      obtain rfl := ht _ (List.mem_of_find?_eq_some hfind) inner keys rfl
      rfl
    | nothing => rfl
    | bool b => rfl
    | number n => rfl
    | text t => rfl
    | date => rfl
    | list vs => rfl
  | none =>
    have hnone : ms.find? (fun m => Json.namesField "store" m.1) = none := by
      rw [List.find?_eq_none] at hfind ⊢
      intro m hm hnames
      exact hfind m hm (beq_iff_eq.mpr (hu m hm hnames))
    rw [hnone]
    rfl

namespace Place

/-- Lays the environment variable for a place over members. -/
def lay (env : List (String × String)) (ms : List (String × Value)) (p : Place) :
    List (String × Value) :=
  match p.override? env with
  | some text => putText ms p.key text
  | none => ms

/-- A text is put at the top, or into the store, as its place says. -/
lemma putText_eq {p : Place} (h : p ∈ places) (ms : List (String × Value)) (text : String) :
    putText ms p.key text =
      match p with
      | top key => putMember ms key (.text text)
      | inStore key =>
        putMember ms "store" (.mapping (putMember (storeRoom ms) key (.text text)) .textual) := by
  have hpieces : ∀ q ∈ places, (Text.pieces (· == '.') q.key.toList).map String.ofList =
      match q with
      | top key => [key]
      | inStore key => ["store", key] := by decide
  rw [putText, hpieces p h]
  cases p <;> rfl

variable {env : List (String × String)} {ms : List (String × Value)} {p q : Place}

/-- A place whose variable is set has the text of the variable, and else what it had. -/
lemma value?_lay_self (hp : p ∈ places) :
    p.value? (p.lay env ms) = ((p.override? env).map .text).or (p.value? ms) := by
  unfold lay
  cases p.override? env with
  | none => rfl
  | some text =>
    simp only [putText_eq hp]
    cases p with
    | top key => exact given?_putMember_self text
    | inStore key =>
      rw [value?, storeMembers_putMember_self]
      exact given?_putMember_self text

/-- Whether the variable for a place makes a member of the store. -/
def TouchesStore (env : List (String × String)) (p : Place) : Prop :=
  ∃ key, p = inStore key ∧ (p.override? env).isSome = true

/-- Every other place has what it had. -/
lemma value?_lay_of_ne (hp : p ∈ places) (hq : q ∈ places) (hne : q ≠ p) (ht : Textual ms)
    (hu : p.TouchesStore env → Uniform ms) : q.value? (p.lay env ms) = q.value? ms := by
  have hproper := proper_places p hp
  have hproper' := proper_places q hq
  unfold lay
  cases htext : p.override? env with
  | none => rfl
  | some text =>
    simp only [putText_eq hp]
    cases p with
    | top key =>
      cases q with
      | top other =>
        have hkey : other ≠ key := fun heq => hne (heq ▸ rfl)
        exact given?_putMember_of_ne hproper'.1 hproper.1 hkey
      | inStore other =>
        rw [value?, storeMembers_putMember_of_ne hproper.1 hproper.2, value?]
    | inStore key =>
      cases q with
      | top other => exact given?_putMember_of_ne hproper'.1 (by decide) hproper'.2
      | inStore other =>
        -- The one case in which it matters how the text finds the members of the store.
        have hkey : other ≠ key := fun heq => hne (heq ▸ rfl)
        rw [value?, storeMembers_putMember_self, given?_putMember_of_ne hproper' hproper hkey,
          storeRoom_eq ht (hu ⟨key, rfl, by rw [htext]; rfl⟩), value?]

/-- A variable that is set puts one member in, which is the store if it is for the store. -/
lemma exists_lay_eq (hp : p ∈ places) (env : List (String × String)) (ms : List (String × Value)) :
    p.lay env ms = ms ∧ ¬ p.TouchesStore env ∨
      ∃ name v, p.lay env ms = putMember ms name v ∧ IsSmall name ∧
        (p.TouchesStore env → name = "store") ∧
        ∀ inner keys, v = .mapping inner keys → keys = .textual := by
  unfold lay
  cases htext : p.override? env with
  | none =>
    refine .inl ⟨rfl, ?_⟩
    rintro ⟨key, -, hsome⟩
    rw [htext] at hsome
    cases hsome
  | some text =>
    right
    simp only [putText_eq hp]
    have hproper := proper_places p hp
    cases p with
    | top key =>
      refine ⟨key, .text text, rfl, hproper.1, ?_, ?_⟩
      · rintro ⟨other, heq, -⟩
        cases heq
      · intro inner keys heq
        cases heq
    | inStore key =>
      refine ⟨"store", _, rfl, by decide, fun _ => rfl, ?_⟩
      intro inner keys heq
      cases heq
      rfl

/-- Overlaying a setting brings in no keys but texts. -/
lemma textual_lay (hp : p ∈ places) (ht : Textual ms) : Textual (p.lay env ms) := by
  rcases exists_lay_eq hp env ms with ⟨heq, -⟩ | ⟨name, v, heq, -, -, hv⟩ <;> rw [heq]
  · exact ht
  · intro m hm inner keys hm'
    rcases of_mem_putMember hm with hm | rfl
    · exact ht m hm inner keys hm'
    · exact hv inner keys hm'

/-- Overlaying a setting brings in no other member that means the store. -/
lemma uniform_lay (hp : p ∈ places) (hu : Uniform ms) : Uniform (p.lay env ms) := by
  rcases exists_lay_eq hp env ms with ⟨heq, -⟩ | ⟨name, v, heq, hname, -, -⟩ <;> rw [heq]
  · exact hu
  · intro m hm hnames
    rcases of_mem_putMember hm with hm | rfl
    · exact hu m hm hnames
    · have hself : Json.namesField name name = true := by simp [Json.namesField]
      exact (IsSmall.eq_of_namesField (by decide) hname hnames hself).symm

/-- Overlaying a setting takes no name away, and puts in the store if it touches it. -/
lemma mem_names_lay (hp : p ∈ places) {n : String}
    (h : n ∈ ms.map Prod.fst ∨ n = "store" ∧ p.TouchesStore env) :
    n ∈ (p.lay env ms).map Prod.fst := by
  rcases exists_lay_eq hp env ms with ⟨heq, hnot⟩ | ⟨name, v, heq, -, hname, -⟩ <;> rw [heq]
  · exact h.resolve_right fun htouches => hnot htouches.2
  · refine mem_names_putMember (h.imp_right ?_)
    rintro ⟨rfl, htouches⟩
    exact (hname htouches).symm

end Place

/-! ### All variables -/

section LayAll

variable {env : List (String × String)} {ms : List (String × Value)}

/-- What all variables together give a place is what its own variable gives it. -/
theorem value?_foldl_lay (env : List (String × String)) {ps : List Place}
    (hps : ∀ p ∈ ps, p ∈ places) (hnodup : ps.Nodup)
    (ht : Textual ms) (hu : ∀ p ∈ ps, p.TouchesStore env → Uniform ms) {q : Place}
    (hq : q ∈ places) :
    q.value? (ps.foldl (Place.lay env) ms) =
      if q ∈ ps then ((q.override? env).map .text).or (q.value? ms) else q.value? ms := by
  induction ps generalizing ms with
  | nil => simp
  | cons p ps ih =>
    obtain ⟨hp, hps⟩ := List.forall_mem_cons.mp hps
    obtain ⟨hnotMem, hnodup⟩ := List.nodup_cons.mp hnodup
    obtain ⟨hup, hups⟩ := List.forall_mem_cons.mp hu
    rw [List.foldl_cons, ih hps hnodup (Place.textual_lay hp ht)
      fun o ho htouches => Place.uniform_lay hp (hups o ho htouches)]
    by_cases hqp : q = p
    · subst hqp
      rw [if_neg hnotMem, if_pos List.mem_cons_self, Place.value?_lay_self hp]
    · rw [Place.value?_lay_of_ne hp hq hqp ht hup]
      simp [hqp]

/-- Overlaying any settings brings in no keys but texts. -/
lemma textual_foldl_lay {ps : List Place} (hps : ∀ p ∈ ps, p ∈ places) (ht : Textual ms) :
    Textual (ps.foldl (Place.lay env) ms) := by
  induction ps generalizing ms with
  | nil => exact ht
  | cons p ps ih =>
    obtain ⟨hp, hps⟩ := List.forall_mem_cons.mp hps
    exact ih hps (Place.textual_lay hp ht)

/-- Overlaying any settings takes no name away, and puts in the store if one of them touches it. -/
lemma mem_names_foldl_lay {ps : List Place} (hps : ∀ p ∈ ps, p ∈ places) {n : String}
    (h : n ∈ ms.map Prod.fst ∨ n = "store" ∧ ∃ p ∈ ps, p.TouchesStore env) :
    n ∈ (ps.foldl (Place.lay env) ms).map Prod.fst := by
  induction ps generalizing ms with
  | nil => simpa using h
  | cons p ps ih =>
    obtain ⟨hp, hps⟩ := List.forall_mem_cons.mp hps
    apply ih hps
    rcases h with h | ⟨rfl, o, ho, htouches⟩
    · exact .inl (Place.mem_names_lay hp (.inl h))
    · rcases List.mem_cons.mp ho with rfl | ho
      · exact .inl (Place.mem_names_lay hp (.inr ⟨rfl, htouches⟩))
      · exact .inr ⟨rfl, o, ho, htouches⟩

/-- The overrides are the texts the environment has for the places, in the order of the places. -/
lemma overrides_eq : overrides env = places.filterMap fun p =>
    (p.override? env).map fun text => (p.key, text) := by
  rw [overrides, ← map_key_places, List.filterMap_map]
  rfl

/-- The overlay goes through the variables one by one. -/
lemma overlay_some : overlay (some ms) env = .ok (places.foldl (Place.lay env) ms) := by
  rw [overlay, overrides_eq, List.foldl_filterMap]
  congr 2
  funext ms p
  rw [Place.lay]
  cases p.override? env <;> rfl

/-- Without variables a file that says nothing is one without members. -/
lemma overlay_none_of_nil (h : overrides env = []) : overlay none env = overlay (some []) env := by
  unfold overlay
  rw [h]
  rfl

/-- Without a mapping there is no place for an override. -/
lemma overlay_none_of_ne_nil (h : overrides env ≠ []) : overlay none env = .error .noPlace := by
  unfold overlay
  cases hset : overrides env with
  | nil => exact absurd hset h
  | cons v vs => rfl

end LayAll

end TapeMachine.Config
