import Mathlib.Data.List.Nodup
import Psuart.Library.Settings

namespace Store

variable {K V : Type} [DecidableEq K]

/-- The first entry of a key takes the new value. -/
def replace (key : K) (value : V) : List (K × V) → Option (List (K × V))
  | [] => none
  | entry :: rest =>
      if entry.1 = key then some ((key, value) :: rest) else (replace key value rest).map (entry :: ·)

/-- A new key stands in front of the others. -/
def putEntry (key : K) (value : V) (entries : List (K × V)) : List (K × V) :=
  (replace key value entries).getD ((key, value) :: entries)

def getEntry (key : K) (entries : List (K × V)) : Option V :=
  (entries.find? fun entry => entry.1 = key).map Prod.snd

/-- A list holds no pair of a key, or it is split at the first one. -/
theorem split_first (key : K) (list : List (K × V)) :
    (∀ entry ∈ list, entry.1 ≠ key) ∨
      ∃ front value back, list = front ++ (key, value) :: back ∧ ∀ entry ∈ front, entry.1 ≠ key := by
  induction list with
  | nil => exact Or.inl (List.forall_mem_nil _)
  | cons entry rest ih =>
      obtain ⟨name, value⟩ := entry
      by_cases same : name = key
      · subst same
        exact Or.inr ⟨[], value, rest, rfl, List.forall_mem_nil _⟩
      · rcases ih with apart | ⟨front, inner, back, rfl, apart⟩
        · exact Or.inl (List.forall_mem_cons.mpr ⟨same, apart⟩)
        · exact Or.inr ⟨(name, value) :: front, inner, back, rfl, List.forall_mem_cons.mpr ⟨same, apart⟩⟩

omit [DecidableEq K] in
/-- The name of a pair does not stand behind it when the names are distinct. -/
theorem apart_behind {key : K} {value : V} {front back : List (K × V)}
    (distinct : ((front ++ (key, value) :: back).map Prod.fst).Nodup) : ∀ entry ∈ back, entry.1 ≠ key := by
  intro entry member same
  rw [List.map_append, List.map_cons, List.nodup_append, List.nodup_cons] at distinct
  exact distinct.2.1.1 (List.mem_map.mpr ⟨entry, member, same⟩)

theorem putEntry_absent {key : K} (value : V) {entries : List (K × V)} (apart : ∀ entry ∈ entries, entry.1 ≠ key) :
    putEntry key value entries = (key, value) :: entries := by
  have absent : replace key value entries = none := by
    induction entries with
    | nil => rfl
    | cons entry rest ih =>
        rw [List.forall_mem_cons] at apart
        rw [replace, if_neg apart.1, ih apart.2]
        rfl
  rw [putEntry, absent]
  rfl

theorem putEntry_split {key : K} (value old : V) {front : List (K × V)} (apart : ∀ entry ∈ front, entry.1 ≠ key)
    (back : List (K × V)) : putEntry key value (front ++ (key, old) :: back) = front ++ (key, value) :: back := by
  have found : replace key value (front ++ (key, old) :: back) = some (front ++ (key, value) :: back) := by
    induction front with
    | nil => exact if_pos rfl
    | cons entry rest ih =>
        rw [List.forall_mem_cons] at apart
        rw [List.cons_append, replace, if_neg apart.1, ih apart.2]
        rfl
  rw [putEntry, found]
  rfl

theorem getEntry_absent {key : K} {entries : List (K × V)} (apart : ∀ entry ∈ entries, entry.1 ≠ key) :
    getEntry key entries = none := by
  rw [getEntry, List.find?_eq_none.mpr (by simpa using apart)]
  rfl

theorem getEntry_append {key : K} {front : List (K × V)} (apart : ∀ entry ∈ front, entry.1 ≠ key)
    (back : List (K × V)) : getEntry key (front ++ back) = getEntry key back := by
  rw [getEntry, List.find?_append, List.find?_eq_none.mpr (by simpa using apart), Option.none_or]
  rfl

theorem getEntry_cons (key asked : K) (value : V) (rest : List (K × V)) :
    getEntry asked ((key, value) :: rest) = if key = asked then some value else getEntry asked rest := by
  rw [getEntry, List.find?_cons]
  by_cases same : key = asked <;> simp [same, getEntry]

/-- An update is read back and keeps the other keys. -/
theorem getEntry_put (key asked : K) (value : V) (entries : List (K × V)) :
    getEntry asked (putEntry key value entries) = if key = asked then some value else getEntry asked entries := by
  rcases split_first key entries with apart | ⟨front, old, back, rfl, apart⟩
  · rw [putEntry_absent value apart, getEntry_cons]
  · rw [putEntry_split value old apart]
    by_cases same : key = asked
    · subst same
      rw [getEntry_append apart, getEntry_cons, if_pos rfl, if_pos rfl]
    · rw [if_neg same, getEntry, getEntry, List.find?_append, List.find?_append, List.find?_cons, List.find?_cons]
      simp [same]

variable {S : Type} [DecidableEq S]

/-- A new section stands behind the others. -/
def put (sec : S) (key : K) (value : V) : List (S × List (K × V)) → List (S × List (K × V))
  | [] => [(sec, [(key, value)])]
  | head :: rest =>
      if head.1 = sec then (sec, putEntry key value head.2) :: rest else head :: put sec key value rest

/-- The value of a key in the first section of a name. -/
def get (sec : S) (key : K) (store : List (S × List (K × V))) : Option V :=
  (store.find? fun head => head.1 = sec).bind fun head => getEntry key head.2

theorem put_absent {sec : S} (key : K) (value : V) {store : List (S × List (K × V))}
    (apart : ∀ head ∈ store, head.1 ≠ sec) : put sec key value store = store ++ [(sec, [(key, value)])] := by
  induction store with
  | nil => rfl
  | cons head rest ih =>
      rw [List.forall_mem_cons] at apart
      rw [put, if_neg apart.1, ih apart.2]
      rfl

theorem put_split {sec : S} (key : K) (value : V) (entries : List (K × V)) {front : List (S × List (K × V))}
    (apart : ∀ head ∈ front, head.1 ≠ sec) (back : List (S × List (K × V))) :
    put sec key value (front ++ (sec, entries) :: back) = front ++ (sec, putEntry key value entries) :: back := by
  induction front with
  | nil => exact if_pos rfl
  | cons head rest ih =>
      rw [List.forall_mem_cons] at apart
      rw [List.cons_append, put, if_neg apart.1, ih apart.2]
      rfl

theorem get_absent {sec : S} (key : K) {store : List (S × List (K × V))} (apart : ∀ head ∈ store, head.1 ≠ sec) :
    get sec key store = none := by
  rw [get, List.find?_eq_none.mpr (by simpa using apart)]
  rfl

theorem get_append {sec : S} (key : K) {front : List (S × List (K × V))} (apart : ∀ head ∈ front, head.1 ≠ sec)
    (back : List (S × List (K × V))) : get sec key (front ++ back) = get sec key back := by
  rw [get, List.find?_append, List.find?_eq_none.mpr (by simpa using apart), Option.none_or]
  rfl

theorem get_cons (sec asked : S) (key : K) (entries : List (K × V)) (rest : List (S × List (K × V))) :
    get asked key ((sec, entries) :: rest) = if sec = asked then getEntry key entries else get asked key rest := by
  rw [get, List.find?_cons]
  by_cases same : sec = asked <;> simp [same, get]

/-- An update is read back and keeps the other sections and keys. -/
theorem get_put (sec askedSec : S) (key asked : K) (value : V) (store : List (S × List (K × V))) :
    get askedSec asked (put sec key value store) =
      if sec = askedSec ∧ key = asked then some value else get askedSec asked store := by
  induction store with
  | nil =>
      rw [put, get_cons, getEntry_cons]
      by_cases same : sec = askedSec <;> simp [same, get, getEntry]
  | cons head rest ih =>
      obtain ⟨name, entries⟩ := head
      rw [put, get_cons]
      by_cases here : name = sec
      · subst here
        rw [if_pos rfl, get_cons]
        by_cases same : name = askedSec <;> simp [same, getEntry_put]
      · rw [if_neg here, get_cons]
        by_cases same : name = askedSec
        · have other : sec ≠ askedSec := fun equal => here (same.trans equal.symm)
          simp [same, other]
        · simp [same, ih]

/-- An update keeps the names of the sections distinct. -/
theorem put_nodup (sec : S) (key : K) (value : V) {store : List (S × List (K × V))}
    (distinct : (store.map Prod.fst).Nodup) : ((put sec key value store).map Prod.fst).Nodup := by
  rcases split_first sec store with apart | ⟨front, entries, back, rfl, apart⟩
  · rw [put_absent key value apart, List.map_append, List.nodup_append]
    refine ⟨distinct, by simp, ?_⟩
    intro name inside other last
    obtain ⟨head, member, rfl⟩ := List.mem_map.mp inside
    rw [List.map_singleton, List.mem_singleton] at last
    rw [last]
    exact apart head member
  · rw [put_split key value entries apart]
    simpa using distinct

theorem putEntry_nodup (key : K) (value : V) {entries : List (K × V)} (distinct : (entries.map Prod.fst).Nodup) :
    ((putEntry key value entries).map Prod.fst).Nodup := by
  rcases split_first key entries with apart | ⟨front, old, back, rfl, apart⟩
  · rw [putEntry_absent value apart, List.map_cons, List.nodup_cons]
    refine ⟨?_, distinct⟩
    intro member
    obtain ⟨entry, inside, same⟩ := List.mem_map.mp member
    exact apart entry inside same
  · rw [putEntry_split value old apart]
    simpa using distinct

/-- The sections have distinct names, and so have the entries of each section. -/
structure Distinct (store : List (S × List (K × V))) : Prop where
  secs : (store.map Prod.fst).Nodup
  keys : ∀ head ∈ store, (head.2.map Prod.fst).Nodup

omit [DecidableEq K] [DecidableEq S] in
theorem distinct_nil : Distinct ([] : List (S × List (K × V))) := ⟨List.nodup_nil, List.forall_mem_nil _⟩

theorem Distinct.put (sec : S) (key : K) (value : V) {store : List (S × List (K × V))} (distinct : Distinct store) :
    Distinct (Store.put sec key value store) := by
  refine ⟨put_nodup sec key value distinct.secs, ?_⟩
  have each := distinct.keys
  rcases split_first sec store with apart | ⟨front, entries, back, rfl, apart⟩
  · rw [put_absent key value apart, List.forall_mem_append, List.forall_mem_singleton]
    exact ⟨each, List.nodup_singleton key⟩
  · rw [put_split key value entries apart]
    rw [List.forall_mem_append, List.forall_mem_cons] at each ⊢
    exact ⟨each.1, putEntry_nodup key value each.2.1, each.2.2⟩

/-- The entries of a store with their sections. -/
def listing (store : List (S × List (K × V))) : List (S × K × V) :=
  store.flatMap fun head => head.2.map fun entry => (head.1, entry)

/-- The entries of a name in one section with distinct names. -/
theorem filter_entries (key : K) {entries : List (K × V)} (distinct : (entries.map Prod.fst).Nodup) :
    entries.filter (fun entry => entry.1 = key) = ((getEntry key entries).map fun value => (key, value)).toList := by
  rcases split_first key entries with apart | ⟨front, value, back, rfl, apart⟩
  · rw [getEntry_absent apart]
    simpa using apart
  · have behind := apart_behind distinct
    have first : front.filter (fun entry => entry.1 = key) = [] := by simpa using apart
    have last : back.filter (fun entry => entry.1 = key) = [] := by simpa using behind
    rw [getEntry_append apart, getEntry_cons, if_pos rfl, List.filter_append, List.filter_cons, first, last]
    simp

/-- The listing holds a name in a section at most once, with its value. -/
theorem Distinct.filter_listing (sec : S) (key : K) {store : List (S × List (K × V))} (distinct : Distinct store) :
    (listing store).filter (fun entry => entry.1 = sec ∧ entry.2.1 = key) =
      ((get sec key store).map fun value => (sec, key, value)).toList := by
  have other {part : List (S × List (K × V))} (apart : ∀ head ∈ part, head.1 ≠ sec) :
      (listing part).filter (fun entry => entry.1 = sec ∧ entry.2.1 = key) = [] := by
    rw [List.filter_eq_nil_iff]
    intro entry member
    obtain ⟨head, inside, own⟩ := List.mem_flatMap.mp member
    obtain ⟨_, _, rfl⟩ := List.mem_map.mp own
    simp [apart head inside]
  rcases split_first sec store with apart | ⟨front, entries, back, rfl, apart⟩
  · rw [other apart, get_absent key apart]
    rfl
  · obtain ⟨secs, keys⟩ := distinct
    have behind := apart_behind secs
    have named : (entries.map Prod.fst).Nodup := keys (sec, entries) (by simp)
    have split : listing (front ++ (sec, entries) :: back) =
        listing front ++ (entries.map (fun entry => (sec, entry)) ++ listing back) := by
      simp [listing]
    have own : (entries.map (fun entry => (sec, entry))).filter (fun entry => entry.1 = sec ∧ entry.2.1 = key) =
        (entries.filter (fun entry => entry.1 = key)).map fun entry => (sec, entry) := by
      rw [List.filter_map]
      simp [Function.comp_def]
    rw [split, List.filter_append, List.filter_append, other apart, other behind, own,
      filter_entries key named, get_append key apart, get_cons, if_pos rfl]
    cases getEntry key entries <;> rfl

/-- What holds of each entry and its section holds behind an update. -/
theorem forall_put (good : S → K → V → Prop) {sec : S} {key : K} {value : V} {store : List (S × List (K × V))}
    (each : ∀ head ∈ store, head.2 ≠ [] ∧ ∀ entry ∈ head.2, good head.1 entry.1 entry.2)
    (new : good sec key value) :
    ∀ head ∈ put sec key value store, head.2 ≠ [] ∧ ∀ entry ∈ head.2, good head.1 entry.1 entry.2 := by
  rcases split_first sec store with apart | ⟨front, entries, back, rfl, apart⟩
  · rw [put_absent key value apart]
    refine List.forall_mem_append.mpr ⟨each, List.forall_mem_singleton.mpr ⟨List.cons_ne_nil _ _, ?_⟩⟩
    exact List.forall_mem_singleton.mpr new
  · rw [put_split key value entries apart]
    rw [List.forall_mem_append, List.forall_mem_cons] at each ⊢
    obtain ⟨before, ⟨_, inner⟩, behind⟩ := each
    refine ⟨before, ?_, behind⟩
    rcases split_first key entries with absent | ⟨first, old, last, rfl, other⟩
    · rw [putEntry_absent value absent]
      exact ⟨List.cons_ne_nil _ _, List.forall_mem_cons.mpr ⟨new, inner⟩⟩
    · rw [putEntry_split value old other]
      rw [List.forall_mem_append, List.forall_mem_cons] at inner
      exact ⟨by simp, List.forall_mem_append.mpr ⟨inner.1, List.forall_mem_cons.mpr ⟨new, inner.2.2⟩⟩⟩

/-- A request for an update of one value. -/
structure Update (S K V : Type) where
  sec : S
  key : K
  value : V

def run (store : List (S × List (K × V))) (updates : List (Update S K V)) : List (S × List (K × V)) :=
  updates.foldl (fun store update => put update.sec update.key update.value store) store

theorem run_append (store : List (S × List (K × V))) (first second : List (Update S K V)) :
    run store (first ++ second) = run (run store first) second := List.foldl_append

theorem Distinct.run {store : List (S × List (K × V))} (distinct : Distinct store) (updates : List (Update S K V)) :
    Distinct (Store.run store updates) := by
  induction updates generalizing store with
  | nil => exact distinct
  | cons update rest ih => exact ih (distinct.put update.sec update.key update.value)

/-- What holds of each entry holds behind a run whose updates have it. -/
theorem forall_run (good : S → K → V → Prop) {updates : List (Update S K V)} {store : List (S × List (K × V))}
    (each : ∀ head ∈ store, head.2 ≠ [] ∧ ∀ entry ∈ head.2, good head.1 entry.1 entry.2)
    (new : ∀ update ∈ updates, good update.sec update.key update.value) :
    ∀ head ∈ run store updates, head.2 ≠ [] ∧ ∀ entry ∈ head.2, good head.1 entry.1 entry.2 := by
  induction updates generalizing store with
  | nil => exact each
  | cons update rest ih =>
      rw [List.forall_mem_cons] at new
      exact ih (forall_put good each new.1) new.2

/-- The value that an update sets for a section and a key. -/
def Update.sets (sec : S) (key : K) (update : Update S K V) : Option (Option V) :=
  if update.sec = sec ∧ update.key = key then some (some update.value) else none

/-- The last update of a key is its value behind a run. -/
theorem get_run (sec : S) (key : K) (store : List (S × List (K × V))) (updates : List (Update S K V)) :
    get sec key (run store updates) = Settings.latest (Update.sets sec key) (get sec key store) updates := by
  induction updates generalizing store with
  | nil => rfl
  | cons update rest ih =>
      rw [Settings.latest_cons, run, List.foldl_cons, ← run, ih, get_put, Update.sets]
      split <;> rfl

end Store
