import TapeMachine.Proofs.Config.Overlay

/-!
# Where settings come from

A decoder that keeps its promises (`Decoder.Lawful`) reads a record field by field, and each field
fills its own part of it (`Field.Serves`). So every setting is read from its own value
(`takes_of_record?`). Together with what an overlay does, this
says where the settings of a JSON file come from: each from its variable, or else from the file, or
else from the defaults, whatever the others are (`takes_of_load`). What an overlay could hide is
refused, since every member of a file must be meant by a key (`uniform_of_record?`).

A file that holds `null` has no members to lay anything over, and a variable that is set then ends
the program (`load_crashes_iff`).
-/

namespace TapeMachine.Config

open Text (Json)

/-! ## Reading records -/

/-- Reads a field of a record from what members say under its key. -/
def readField {α : Type} (ms : List (String × Value)) (a : α) (f : Field α) : Option α :=
  (given? ms f.key).elim (some a) fun v => f.set v a

/-- What a library that fills records promises: a record is read only if all members are meant by a
key, and then each field is read from what is given under its key. -/
structure Decoder.Lawful (d : Decoder) : Prop where
  used {α : Type} {fields : List (Field α)} {ms : List (String × Value)} {start a : α} :
    d.record? fields ms start = some a →
      ∀ m ∈ ms, ∃ f ∈ fields, ∃ v, memberFor ms f.key = some (m.1, v)
  reads {α : Type} {fields : List (Field α)} {ms : List (String × Value)} {start a : α} :
    d.record? fields ms start = some a → fields.foldlM (readField ms) start = some a

section Fields

variable {α β : Type} {ms : List (String × Value)}

/-- Members are read into a record if all of them are meant by a key and every field can be read. -/
lemma readFields_eq (fields : List (Field α)) (ms : List (String × Value)) (start : α) :
    readFields fields ms start =
      if ms.any fun m => !(fields.filterMap fun f => (memberFor ms f.key).map (·.1)).contains m.1
      then none else fields.foldlM (readField ms) start := by
  rw [readFields]
  congr 2
  funext a f
  rw [readField, given?]
  cases memberFor ms f.key with
  | none => rfl
  | some m =>
    obtain ⟨k, v⟩ := m
    cases v <;> rfl

/-- The decoder that takes any value that can be understood keeps these promises. -/
theorem Decoder.lawful_weak : Decoder.weak.Lawful where
  used {α fields ms start a} h := by
    change readFields fields ms start = some a at h
    rw [readFields_eq] at h
    split at h
    · cases h
    · rename_i hany
      simpa using hany
  reads {α fields ms start a} h := by
    change readFields fields ms start = some a at h
    rw [readFields_eq] at h
    split at h
    · cases h
    · exact h

/-- A field fills one part of a record, over what the part was, and leaves other parts alone. -/
structure Field.Serves (f : Field α) (key : String)
    (read : Value → β → Option β) (get : α → β) : Prop where
  own : f.key = key → ∀ v a a', f.set v a = some a' → read v (get a) = some (get a')
  other : f.key ≠ key → ∀ v a a', f.set v a = some a' → get a' = get a

/-- A field that puts what it reads to its own part. -/
lemma Field.serves_own {f : Field α} {read : Value → β → Option β} {get : α → β} {put : β → α → α}
    (hset : ∀ v a, f.set v a = (read v (get a)).map fun b => put b a)
    (hput : ∀ b a, get (put b a) = b) : f.Serves f.key read get := by
  refine ⟨fun _ v a a' h => ?_, fun hne => absurd rfl hne⟩
  rw [hset] at h
  obtain ⟨b, hread, rfl⟩ := Option.map_eq_some_iff.mp h
  rw [hput, hread]

/-- A field that puts what it reads to another part. -/
lemma Field.serves_other {γ : Type} {f : Field α} {key : String} {read : Value → β → Option β}
    {get : α → β} {r : Value → α → Option γ} {put : γ → α → α} (hkey : f.key ≠ key)
    (hset : ∀ v a, f.set v a = (r v a).map fun b => put b a)
    (hput : ∀ b a, get (put b a) = get a) : f.Serves key read get := by
  refine ⟨fun heq => absurd heq hkey, fun _ v a a' h => ?_⟩
  rw [hset] at h
  obtain ⟨b, -, rfl⟩ := Option.map_eq_some_iff.mp h
  exact hput b a

/-- When all fields serve a part, it is read from its value, over what it was, or else left. -/
theorem get_of_foldlM {fields : List (Field α)} {key : String} {read : Value → β → Option β}
    {get : α → β} (hserves : ∀ f ∈ fields, f.Serves key read get)
    (hnodup : (fields.map Field.key).Nodup) {start a : α}
    (h : fields.foldlM (readField ms) start = some a) :
    if key ∈ fields.map Field.key then
      (given? ms key).elim (some (get start)) (fun v => read v (get start)) = some (get a)
    else get a = get start := by
  induction fields generalizing start with
  | nil =>
    cases h
    rfl
  | cons f fields ih =>
    obtain ⟨hf, hfields⟩ := List.forall_mem_cons.mp hserves
    obtain ⟨hnotMem, hnodup⟩ := List.nodup_cons.mp hnodup
    rw [List.foldlM_cons] at h
    obtain ⟨a', hfield, hrest⟩ := Option.bind_eq_some_iff.mp h
    have hih := ih hfields hnodup hrest
    rw [readField] at hfield
    by_cases hkey : f.key = key
    · subst hkey
      rw [if_neg hnotMem] at hih
      rw [List.map_cons, if_pos List.mem_cons_self, hih]
      cases hgiven : given? ms f.key with
      | none =>
        rw [hgiven] at hfield
        cases hfield
        rfl
      | some v =>
        rw [hgiven] at hfield
        exact hf.own rfl v start a' hfield
    · have hget : get a' = get start := by
        cases hgiven : given? ms f.key with
        | none =>
          rw [hgiven] at hfield
          cases hfield
          rfl
        | some v =>
          rw [hgiven] at hfield
          exact hf.other hkey v start a' hfield
      rw [hget] at hih
      simpa [Ne.symm hkey] using hih

end Fields

/-! ### Every setting is read from its own value -/

/-- Every field of the settings fills its own part of them. -/
lemma serves_topParts (d : Decoder) :
    ∀ x ∈ topParts d, ∀ f ∈ fields d, f.Serves x.key (fun v _ => x.read v) x.get := by
  simp only [topParts, fields, List.forall_mem_cons, List.not_mem_nil, false_implies, implies_true,
    and_true]
  refine ⟨?_, ?_, ?_, ?_, ?_, ?_, ?_, ?_, ?_, ?_, ?_⟩ <;>
    refine ⟨?_, ?_, ?_, ?_, ?_, ?_, ?_, ?_, ?_, ?_, ?_, ?_⟩ <;>
    first
    | exact Field.serves_own (fun _ _ => rfl) fun _ _ => rfl
    | exact Field.serves_other (by simp [Field.of]) (fun _ _ => rfl) fun _ _ => rfl

/-- Every field of the settings fills its own part of them, the store too. -/
lemma serves_store (d : Decoder) :
    ∀ f ∈ fields d, f.Serves "store" (readStore d) Config.store := by
  simp only [fields, List.forall_mem_cons, List.not_mem_nil, false_implies, implies_true, and_true]
  refine ⟨?_, ?_, ?_, ?_, ?_, ?_, ?_, ?_, ?_, ?_, ?_, ?_⟩ <;>
    first
    | exact Field.serves_own (fun _ _ => rfl) fun _ _ => rfl
    | exact Field.serves_other (by simp [Field.of]) (fun _ _ => rfl) fun _ _ => rfl

/-- Every field of the store fills its own part of it. -/
lemma serves_storeParts (d : Decoder) :
    ∀ x ∈ storeParts d, ∀ f ∈ storeFields d, f.Serves x.key (fun v _ => x.read v) x.get := by
  simp only [storeParts, storeFields, List.forall_mem_cons, List.not_mem_nil, false_implies,
    implies_true, and_true]
  refine ⟨?_, ?_, ?_, ?_, ?_, ?_, ?_⟩ <;> refine ⟨?_, ?_, ?_, ?_, ?_, ?_, ?_⟩ <;>
    first
    | exact Field.serves_own (fun _ _ => rfl) fun _ _ => rfl
    | exact Field.serves_other (by simp [Field.of]) (fun _ _ => rfl) fun _ _ => rfl

/-- The members of the store are those of the mapping that is given for it. -/
lemma storeMembers_eq (ms : List (String × Value)) :
    storeMembers ms =
      match given? ms "store" with
      | some (.mapping inner _) => inner
      | _ => [] := by
  rw [storeMembers, given?]
  cases memberFor ms "store" with
  | none => rfl
  | some m =>
    obtain ⟨k, v⟩ := m
    cases v <;> rfl

/-- Without members every field is left as it was. -/
lemma foldlM_readField_nil {α : Type} (fields : List (Field α)) (a : α) :
    fields.foldlM (readField []) a = some a := by
  induction fields with
  | nil => rfl
  | cons f fields ih => exact ih

/-- The settings of the store are read from its members, even if there are none. -/
lemma foldlM_storeMembers {d : Decoder} (hd : d.Lawful) {ms : List (String × Value)}
    {st : StoreSettings}
    (h : (given? ms "store").elim (some {}) (fun v => readStore d v {}) = some st) :
    (storeFields d).foldlM (readField (storeMembers ms)) {} = some st := by
  rw [storeMembers_eq]
  cases hgiven : given? ms "store" with
  | none =>
    rw [hgiven] at h
    cases h
    exact foldlM_readField_nil ..
  | some v =>
    rw [hgiven] at h
    cases v with
    | mapping inner keys => exact hd.reads h
    | date =>
      cases h
      exact foldlM_readField_nil ..
    | nothing => cases h
    | bool b => cases h
    | number n => cases h
    | text t => cases h
    | list vs => cases h

/-- The keys of the fields do not depend on the decoder. -/
lemma map_key_fields (d : Decoder) : (fields d).map Field.key = topKeys ++ ["store"] := rfl

/-- Neither do those of the fields of the store. -/
lemma map_key_storeFields (d : Decoder) : (storeFields d).map Field.key = storeKeys := rfl

/-- A setting is read from a value, or has its default if there is none. -/
def Setting.Takes (s : Setting) (v? : Option Value) (c : Config) : Prop :=
  v?.elim (some (s.get {})) s.read = some (s.get c)

/-- Every setting is read from its own value. -/
theorem takes_of_record? {d : Decoder} (hd : d.Lawful) {ms : List (String × Value)} {c : Config}
    (h : d.record? (fields d) ms {} = some c) :
    ∀ s ∈ settings d, s.Takes (s.place.value? ms) c := by
  have hkeys : ((fields d).map Field.key).Nodup := by
    rw [map_key_fields]
    decide
  have hstoreKeys : ((storeFields d).map Field.key).Nodup := by
    rw [map_key_storeFields]
    decide
  intro s hs
  rcases List.mem_append.mp hs with hs | hs
  · obtain ⟨x, hx, rfl⟩ := List.mem_map.mp hs
    have hkey : x.key ∈ (fields d).map Field.key :=
      List.mem_append_left ["store"] (List.mem_map_of_mem (f := Part.key) hx)
    have hget := get_of_foldlM (serves_topParts d x hx) hkeys (hd.reads h)
    rwa [if_pos hkey] at hget
  · obtain ⟨x, hx, rfl⟩ := List.mem_map.mp hs
    have hkey : x.key ∈ (storeFields d).map Field.key := List.mem_map_of_mem (f := Part.key) hx
    have hstore := get_of_foldlM (serves_store d) hkeys (hd.reads h)
    rw [if_pos (by rw [map_key_fields]; decide)] at hstore
    have hget := get_of_foldlM (serves_storeParts d x hx) hstoreKeys (foldlM_storeMembers hd hstore)
    rwa [if_pos hkey] at hget

/-- A variable of the store and a member that only differs from `store` in case do not go together:
the member is not meant by any key. -/
lemma uniform_of_record? {d : Decoder} (hd : d.Lawful) {env : List (String × String)}
    {ms : List (String × Value)} {c : Config}
    (h : d.record? (fields d) (places.foldl (Place.lay env) ms) {} = some c) {p : Place}
    (hp : p ∈ places) (htouches : p.TouchesStore env) : Uniform ms := by
  intro m hm hnames
  have hsmall : ∀ key ∈ topKeys ++ ["store"], IsSmall key := by decide
  obtain ⟨v, hstore⟩ := exists_memberFor_of_mem
    (mem_names_foldl_lay (fun _ hq => hq) (.inr ⟨rfl, p, hp, htouches⟩))
  have hname : m.1 ∈ (places.foldl (Place.lay env) ms).map Prod.fst :=
    mem_names_foldl_lay (fun _ hq => hq) (.inl (List.mem_map_of_mem hm))
  obtain ⟨m', hm', heq⟩ := List.mem_map.mp hname
  obtain ⟨f, hf, w, hmember⟩ := hd.used h m' hm'
  rw [heq] at hmember
  have hkey : f.key = "store" :=
    (hsmall f.key (List.mem_map_of_mem (f := Field.key) hf)).eq_of_namesField (by decide)
      (namesField_of_memberFor hmember) hnames
  rw [hkey, hstore] at hmember
  exact (congrArg Prod.fst (Option.some.inj hmember)).symm

/-! ## Loading -/

/-- What a JSON file says. -/
def jsonMembers (text : String) : List (String × Value) :=
  match (Json.parse? text).bind ofJson? with
  | some (.mapping ms _) => ms
  | _ => []

/-- Only an object becomes a mapping, and its keys are texts. -/
lemma exists_of_ofJson?_eq_mapping {j : Json} {inner : List (String × Value)} {keys : Keys}
    (h : ofJson? j = some (.mapping inner keys)) :
    keys = .textual ∧ ∃ js, ofMembers? js = some inner := by
  cases j with
  | object js =>
    rw [ofJson?] at h
    obtain ⟨ms, hms, heq⟩ := Option.map_eq_some_iff.mp h
    cases heq
    exact ⟨rfl, js, hms⟩
  | null => simp [ofJson?] at h
  | bool b => simp [ofJson?] at h
  | number ds => simp [ofJson?] at h
  | string t => simp [ofJson?] at h
  | bytes bs => simp [ofJson?] at h
  | array js => simp [ofJson?] at h

/-- Only `null` becomes nothing. -/
lemma ofJson?_eq_nothing_iff {j : Json} : ofJson? j = some .nothing ↔ j = .null := by
  cases j <;> simp [ofJson?]

/-- No mapping in a JSON file has keys that are no texts. -/
lemma textual_jsonMembers (text : String) : Textual (jsonMembers text) := by
  have hmembers : ∀ {js : List (String × Json)} {ms : List (String × Value)},
      ofMembers? js = some ms → Textual ms := by
    intro js
    induction js with
    | nil =>
      intro ms h
      rw [ofMembers?] at h
      cases h
      intro m hm
      cases hm
    | cons j js ih =>
      intro ms h
      obtain ⟨k, j⟩ := j
      rw [ofMembers?] at h
      split at h
      · rename_i a as ha has
        cases h
        split
        · exact ih has
        · refine List.forall_mem_cons.mpr ⟨fun inner keys heq => ?_, ih has⟩
          obtain rfl : a = .mapping inner keys := heq
          exact (exists_of_ofJson?_eq_mapping ha).1
      · cases h
  unfold jsonMembers
  split
  · rename_i ms keys h
    obtain ⟨j, -, hj⟩ := Option.bind_eq_some_iff.mp h
    obtain ⟨-, js, hjs⟩ := exists_of_ofJson?_eq_mapping hj
    exact hmembers hjs
  · intro m hm
    cases hm

/-- No key of the store is strange, and the settings are what is read. -/
lemma decode_eq {ms : List (String × Value)} (h : Textual ms) (d : Decoder) :
    decode ms d =
      match d.record? (fields d) ms {} with
      | none => .error .undecodable
      | some c =>
        match c.defect? with
        | some message => .error (.invalid message)
        | none => .ok c := by
  have hstrange : strangeKey? ms = none := by
    unfold strangeKey?
    split
    · rename_i k inner kind kinds hmember
      have hm : (k, Value.mapping inner (.mixed (kind :: kinds))) ∈ ms := by
        unfold memberFor at hmember
        split at hmember
        · rename_i m hfind
          cases hmember
          exact List.mem_of_find?_eq_some hfind
        · exact List.mem_of_find?_eq_some hmember
      exact absurd (h _ hm _ _ rfl) (by simp)
    · rfl
  rw [decode, hstrange]
  cases d.record? (fields d) ms {} <;> rfl

section Load

variable {fs : Files} {env : List (String × String)} {path text : String} {d : Decoder}
  {yaml : YamlReader}

/-- What becomes of a JSON file: without members there is nothing to lay variables over. -/
lemma load_cases (d : Decoder) (yaml : YamlReader) (env : List (String × String))
    (hjson : isJsonFile path = true) (hread : fs.read path = .ok text) :
    (Json.parse? text = some .null ∧ overrides env ≠ [] ∧
        load fs env path d yaml = .error .noPlace) ∨
      ¬ (Json.parse? text = some .null ∧ overrides env ≠ []) ∧
        (load fs env path d yaml = .error .unparsable ∨
          load fs env path d yaml =
            decode (places.foldl (Place.lay env) (jsonMembers text)) d) := by
  have hpath : path ≠ "" := by
    rintro rfl
    exact absurd hjson (by decide)
  have hload : load fs env path d yaml =
      (parse path text yaml >>= fun said => overlay said env >>= (decode · d)) := by
    simp [load, readFile, hpath, hread]
  have hmembers : (overlay (some (jsonMembers text)) env >>= (decode · d)) =
      decode (places.foldl (Place.lay env) (jsonMembers text)) d := by
    rw [overlay_some]
    rfl
  rw [hload, parse, if_pos hjson, ← hmembers]
  by_cases hnull : Json.parse? text = some .null
  · have hempty : jsonMembers text = [] := by
      rw [jsonMembers, hnull]
      rfl
    have hnone : (Json.parse? text).bind ofJson? = some .nothing := by
      rw [hnull]
      rfl
    rw [hnone, hempty]
    by_cases hset : overrides env = []
    · refine .inr ⟨fun h => h.2 hset, .inr ?_⟩
      change (overlay none env >>= (decode · d)) = _
      rw [overlay_none_of_nil hset]
    · refine .inl ⟨hnull, hset, ?_⟩
      change (overlay none env >>= (decode · d)) = _
      rw [overlay_none_of_ne_nil hset]
      rfl
  · refine .inr ⟨fun h => hnull h.1, ?_⟩
    have hsomething : (Json.parse? text).bind ofJson? ≠ some .nothing := by
      intro h
      obtain ⟨j, hj, hnothing⟩ := Option.bind_eq_some_iff.mp h
      rw [ofJson?_eq_nothing_iff.mp hnothing] at hj
      exact hnull hj
    split
    · rename_i hnothing
      exact absurd hnothing hsomething
    · rename_i ms keys h
      have heq : jsonMembers text = ms := by
        rw [jsonMembers, h]
      rw [heq]
      exact .inr rfl
    · exact .inl rfl

/-- A program that loads a JSON file ends at once exactly if the file holds `null` and a variable is
set. -/
lemma load_crashes_iff (hjson : isJsonFile path = true) (hread : fs.read path = .ok text) :
    (∃ e, load fs env path d yaml = .error e ∧ e.isCrash = true) ↔
      Json.parse? text = some .null ∧ overrides env ≠ [] := by
  rcases load_cases d yaml env hjson hread with ⟨hnull, hset, hload⟩ | ⟨hnot, hload⟩
  · exact iff_of_true ⟨_, hload, rfl⟩ ⟨hnull, hset⟩
  · refine iff_of_false ?_ hnot
    rintro ⟨e, he, hcrash⟩
    rcases hload with hload | hload
    · rw [hload] at he
      cases he
      cases hcrash
    · rw [hload, decode_eq (textual_foldl_lay (fun _ h => h) (textual_jsonMembers text))] at he
      split at he
      · cases he
        cases hcrash
      · split at he
        · cases he
          cases hcrash
        · cases he

/-- Every setting that was loaded comes from its variable, or else from the file, or else from the
defaults. -/
lemma takes_of_load (hd : d.Lawful) (hjson : isJsonFile path = true)
    (hread : fs.read path = .ok text) {c : Config} (h : load fs env path d yaml = .ok c) :
    ∀ s ∈ settings d, s.Takes
      (((s.place.override? env).map .text).or (s.place.value? (jsonMembers text))) c := by
  have htextual := textual_jsonMembers text
  have hdecode : d.record? (fields d) (places.foldl (Place.lay env) (jsonMembers text)) {} =
      some c := by
    rcases load_cases d yaml env hjson hread with ⟨-, -, hload⟩ | ⟨-, hload | hload⟩
    · rw [hload] at h
      cases h
    · rw [hload] at h
      cases h
    · rw [hload, decode_eq (textual_foldl_lay (fun _ h => h) htextual)] at h
      split at h
      · cases h
      · split at h
        · cases h
        · cases h
          assumption
  intro s hs
  have hplace : s.place ∈ places := List.mem_map_of_mem (f := Setting.place) hs
  have hvalue := value?_foldl_lay env (fun _ h => h) nodup_places htextual
    (fun p hp htouches => uniform_of_record? hd hdecode hp htouches) hplace
  rw [if_pos hplace] at hvalue
  rw [← hvalue]
  exact takes_of_record? hd hdecode s hs

/-- There are overrides exactly when the environment has a text for some setting. -/
lemma overrides_ne_nil_iff (d : Decoder) :
    overrides env ≠ [] ↔ ∃ s ∈ settings d, (s.place.override? env).isSome = true := by
  rw [overrides_eq, ne_eq, List.filterMap_eq_nil_iff, ← map_place_settings d]
  simp [Option.isSome_iff_ne_none]

/-- Whatever a JSON file holds and whatever variables are set, loading it gives settings or an
error, unless the file holds `null` and the variable of some setting is set, which ends the program.
If settings are loaded, each of them is read from its environment variable if this is set, else from
what the file gives at its place, and else it is the default, whatever the others are. This is so
for every decoder that keeps its promises. -/
theorem settings_come_from_own_source (hd : d.Lawful) (yaml : YamlReader)
    (hjson : isJsonFile path = true) (hread : fs.read path = .ok text) :
    ((∃ e, load fs env path d yaml = .error e ∧ e.isCrash = true) ↔
      Json.parse? text = some .null ∧ ∃ s ∈ settings d, (s.place.override? env).isSome = true) ∧
    ∀ c, load fs env path d yaml = .ok c → ∀ s ∈ settings d,
      (∀ x, s.place.override? env = some x → s.read (.text x) = some (s.get c)) ∧
      (s.place.override? env = none →
        (∀ v, s.place.value? (jsonMembers text) = some v → s.read v = some (s.get c)) ∧
        (s.place.value? (jsonMembers text) = none → s.get c = s.get {})) := by
  refine ⟨?_, fun c hload s hs => ?_⟩
  · rw [load_crashes_iff hjson hread, overrides_ne_nil_iff d]
  · have htakes := takes_of_load hd hjson hread hload s hs
    refine ⟨fun x hx => ?_, fun hnone => ⟨fun v hv => ?_, fun hv => ?_⟩⟩
    · rw [hx] at htakes
      exact htakes
    · rw [hnone, hv] at htakes
      exact htakes
    · rw [hnone, hv] at htakes
      exact (Option.some.inj htakes).symm

end Load

/-- A tree with one file, which names a program. -/
def programFile : Files :=
  { entries := [(["a.json"], .file "\x7b\"program\":\"b.btm\"\x7d")] }

/-- Three settings, one from each source: the kind of the store from its variable, the program from
the file, and the output from the defaults. -/
theorem settings_come_from_own_source_three :
    ∃ c, load programFile [("TURING_STORE_KIND", "file")] "a.json" = .ok c ∧
      c.store.kind = "file" ∧ c.program = "b.btm" ∧ c.output = "morphett.txt" := by
  have hsome : (load programFile [("TURING_STORE_KIND", "file")] "a.json").isOk = true := by
    decide +kernel
  cases hload : load programFile [("TURING_STORE_KIND", "file")] "a.json" with
  | error e =>
    rw [hload] at hsome
    cases hsome
  | ok c =>
    have hread : programFile.read "a.json" = .ok "\x7b\"program\":\"b.btm\"\x7d" := by rfl
    have hall :=
      (settings_come_from_own_source Decoder.lawful_weak Yaml.parse (by decide) hread).2 c hload
    have hkind := hall _ (List.mem_append_right _ (List.mem_map_of_mem List.mem_cons_self))
    have hprogram := hall _ (List.mem_append_left _ (List.mem_map_of_mem List.mem_cons_self))
    have houtput := hall _ (List.mem_append_left _ (List.mem_map_of_mem
      (List.mem_cons_of_mem _ (List.mem_cons_of_mem _ List.mem_cons_self))))
    have hgiven : ((Place.top "program").value? (jsonMembers
        "\x7b\"program\":\"b.btm\"\x7d")).bind Value.toText? = some "b.btm" := by decide +kernel
    have hmissing : ((Place.top "output").value? (jsonMembers
        "\x7b\"program\":\"b.btm\"\x7d")).isNone = true := by decide +kernel
    obtain ⟨v, hv, hvalue⟩ := Option.bind_eq_some_iff.mp hgiven
    refine ⟨c, rfl, ?_, ?_, ?_⟩
    · exact (Option.some.inj (hkind.1 "file" (by decide +kernel))).symm
    · exact Option.some.inj (((hprogram.2 (by decide +kernel)).1 v hv).symm.trans hvalue)
    · exact (houtput.2 (by decide +kernel)).2 (Option.isNone_iff_eq_none.mp hmissing)

/-- A tree with one file, which holds `null`. -/
def nullFile : Files :=
  { entries := [(["a.json"], .file "null")] }

/-- A variable that is laid over `null` ends the program. -/
theorem null_file_crashes :
    load nullFile [("TURING_PROGRAM", "b.btm")] "a.json" = .error .noPlace ∧
      Error.noPlace.isCrash = true := by
  have hread : nullFile.read "a.json" = .ok "null" := by rfl
  have hset : overrides [("TURING_PROGRAM", "b.btm")] ≠ [] := by decide
  rcases load_cases .weak Yaml.parse [("TURING_PROGRAM", "b.btm")] (by decide) hread with
    ⟨-, -, hload⟩ | ⟨hnot, -⟩
  · exact ⟨hload, rfl⟩
  · exact absurd ⟨by rfl, hset⟩ hnot

end TapeMachine.Config
