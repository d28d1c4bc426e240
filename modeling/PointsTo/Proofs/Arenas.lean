import Mathlib.Data.List.Induction
import Mathlib.Data.List.Nodup
import PointsTo.Id

/-!
# Arenas

An arena numbers entries in the order in which they are first asked for. Entries are told apart by a key, and
an entry whose key is known already is not added again, even if it differs from the one that is there. The
entries stand in a table, and a hash map leads from the keys back to their positions. The two are written one
after the other, and nothing but the way they are written keeps them together.

They stay together, whatever is asked for and whatever the hash function is: a key is found at a position
precisely if the entry at that position has the key.

- `Arena`, `Arena.intern`: the two tables, and how an entry is asked for.
- `Arena.find?_intern`, `Arena.get?_intern`: what one request changes.
- `Arena.Registers`: how the tables agree with each other and with what was asked for.
- `Arena.registers_after`: they do, after every sequence of requests.
-/

namespace PointsTo

/-- Entries by position, and the positions by the keys of the entries. -/
structure Arena {α κ : Type} [BEq κ] [Hashable κ] (table : Table) (key : α → κ) where
  entries : Array α := #[]
  ids : Std.HashMap κ (Id table) := ∅

namespace Arena

variable {α κ : Type} [DecidableEq κ] [Hashable κ] {table : Table} {key : α → κ}

/-! ## §1 Requests -/

/-- The number of entries. -/
def size (r : Arena table key) : Nat := r.entries.size

/-- The entry at a position. -/
def get? (r : Arena table key) (id : Id table) : Option α := r.entries[id.index]?

/-- The position of a key. -/
def find? (r : Arena table key) (k : κ) : Option (Id table) := r.ids[k]?

/-- The position of an entry's key. If the key is new, the entry is added. -/
def intern (r : Arena table key) (a : α) : Arena table key × Id table :=
  match r.find? (key a) with
  | some id => (r, id)
  | none =>
    let id : Id table := ⟨r.entries.size⟩
    ({ entries := r.entries.push a, ids := r.ids.insert (key a) id }, id)

/-- What a sequence of requests leaves behind. -/
def after (requests : List α) : Arena table key := requests.foldl (fun r a => (r.intern a).1) {}

theorem after_concat (requests : List α) (a : α) :
    (after (requests ++ [a]) : Arena table key) = ((after requests).intern a).1 := by
  simp [after]

variable {r : Arena table key} {a b : α} {id : Id table} {k : κ}

theorem intern_of_known (h : r.find? (key a) = some id) : r.intern a = (r, id) := by
  simp [intern, h]

theorem intern_of_new (h : r.find? (key a) = none) :
    r.intern a =
      ({ entries := r.entries.push a, ids := r.ids.insert (key a) ⟨r.size⟩ }, ⟨r.size⟩) := by
  simp [intern, h, size]

/-- A request makes its key known, and no other. -/
theorem find?_intern :
    (r.intern a).1.find? k = if key a = k then some (r.intern a).2 else r.find? k := by
  cases h : r.find? (key a) with
  | some id =>
    rw [intern_of_known h]
    split
    · rename_i hk
      rw [← hk, h]
    · rfl
  | none =>
    rw [intern_of_new h]
    simp [find?, Std.HashMap.getElem?_insert]

/-- A request with a new key adds an entry behind all others. -/
theorem get?_intern_of_new (h : r.find? (key a) = none) :
    (r.intern a).1.get? id = if id.index = r.size then some a else r.get? id := by
  rw [intern_of_new h]
  exact Array.getElem?_push

theorem index_lt_of_get? (h : r.get? id = some a) : id.index < r.size :=
  (Array.getElem?_eq_some_iff.1 h).1

theorem get?_isSome_iff : (r.get? id).isSome = true ↔ id.index < r.size := by
  simp [get?, size]

/-- **Entries stay**: a position, once given, keeps its entry. -/
theorem get?_intern (h : r.get? id = some b) : (r.intern a).1.get? id = some b := by
  cases hknown : r.find? (key a) with
  | some _ => rw [intern_of_known hknown, h]
  | none => rw [get?_intern_of_new hknown, if_neg (Nat.ne_of_lt (index_lt_of_get? h)), h]

/-! ## §2 Agreement -/

/-- The tables agree with each other and with the requests. -/
structure Registers (r : Arena table key) (requests : List α) : Prop where
  /-- A key is found at a position precisely if the entry there has the key. -/
  find?_iff : ∀ {k id}, r.find? k = some id ↔ ∃ a, r.get? id = some a ∧ key a = k
  /-- The known keys are those that were asked for. -/
  known_iff : ∀ {k}, (∃ id, r.find? k = some id) ↔ ∃ a ∈ requests, key a = k
  /-- An entry is the first one that was asked for among those with its key. -/
  first : ∀ {id a}, r.get? id = some a → requests.find? (key · = key a) = some a

variable {requests : List α}

theorem registers_empty : ({} : Arena table key).Registers [] where
  find?_iff := by simp [find?, get?]
  known_iff := by simp [find?]
  first := by simp [get?]

/-- Whatever the request, its answer is the position of an entry with the key. -/
theorem Registers.get?_answer (h : r.Registers requests) (a : α) :
    ∃ b, (r.intern a).1.get? (r.intern a).2 = some b ∧ key b = key a := by
  cases hknown : r.find? (key a) with
  | some id =>
    rw [intern_of_known hknown]
    exact h.find?_iff.1 hknown
  | none =>
    refine ⟨a, ?_, rfl⟩
    rw [get?_intern_of_new hknown, intern_of_new hknown]
    exact if_pos rfl

/-- A request with a known key changes nothing, not even which requests come first. -/
theorem Registers.of_known (h : r.Registers requests) (hknown : r.find? (key a) = some id) :
    r.Registers (requests ++ [a]) where
  find?_iff := h.find?_iff
  known_iff {k} := by
    rw [h.known_iff]
    constructor
    · rintro ⟨b, hb, hk⟩
      exact ⟨b, List.mem_append_left _ hb, hk⟩
    · rintro ⟨b, hb, hk⟩
      rcases List.mem_append.1 hb with hb | hb
      · exact ⟨b, hb, hk⟩
      · rw [List.mem_singleton.1 hb] at hk
        exact h.known_iff.1 ⟨id, hk ▸ hknown⟩
  first hb := by
    rw [List.find?_append, h.first hb]
    rfl

/-- A request with a new key adds an entry and its key. -/
theorem Registers.of_new (h : r.Registers requests) (hnew : r.find? (key a) = none) :
    (r.intern a).1.Registers (requests ++ [a]) where
  find?_iff {k id} := by
    rw [find?_intern, get?_intern_of_new hnew, intern_of_new hnew]
    by_cases hid : id.index = r.size
    · -- the position is the new one, so no older key is found there
      have hlast : (⟨r.size⟩ : Id table) = id := congrArg Id.mk hid.symm
      have hold : r.find? k ≠ some id := by
        intro hfound
        obtain ⟨b, hb, _⟩ := h.find?_iff.1 hfound
        exact Nat.ne_of_lt (index_lt_of_get? hb) hid
      by_cases hk : key a = k <;> simp [hid, hlast, hk, hold]
    · -- the position is an old one, and the new key is not found at it
      have hlast : (⟨r.size⟩ : Id table) ≠ id := fun heq => hid (congrArg Id.index heq.symm)
      rw [if_neg hid, ← h.find?_iff]
      by_cases hk : key a = k
      · subst hk
        simp [hlast, hnew]
      · rw [if_neg hk]
  known_iff {k} := by
    simp only [find?_intern, List.mem_append, List.mem_singleton]
    by_cases hk : key a = k
    · exact ⟨fun _ => ⟨a, Or.inr rfl, hk⟩, fun _ => ⟨_, if_pos hk⟩⟩
    · simp only [if_neg hk, h.known_iff]
      constructor
      · rintro ⟨b, hb, hkey⟩
        exact ⟨b, Or.inl hb, hkey⟩
      · rintro ⟨b, hb | rfl, hkey⟩
        · exact ⟨b, hb, hkey⟩
        · exact absurd hkey hk
  first {id b} hb := by
    rw [get?_intern_of_new hnew] at hb
    rw [List.find?_append]
    split at hb
    · -- nothing with the key was asked for before
      cases hb
      have hnone : requests.find? (key · = key a) = none := by
        apply List.find?_eq_none.2
        intro b hb hkey
        obtain ⟨id, hid⟩ := h.known_iff.2 ⟨b, hb, of_decide_eq_true hkey⟩
        rw [hnew] at hid
        exact absurd hid.symm (Option.some_ne_none id)
      simp [hnone]
    · rw [h.first hb]
      rfl

/-- One more request keeps the tables together. -/
theorem Registers.intern (h : r.Registers requests) (a : α) :
    (r.intern a).1.Registers (requests ++ [a]) := by
  cases hknown : r.find? (key a) with
  | some id =>
    rw [intern_of_known hknown]
    exact h.of_known hknown
  | none => exact h.of_new hknown

/-- **Arenas are exact** after every sequence of requests. -/
theorem registers_after (requests : List α) : (after requests : Arena table key).Registers requests := by
  induction requests using List.reverseRecOn with
  | nil => exact registers_empty
  | append_singleton requests a ih =>
    rw [after_concat]
    exact ih.intern a

/-! ## §3 Consequences -/

/-- Different positions have different keys. -/
theorem Registers.id_unique (h : r.Registers requests) {id id' : Id table} (ha : r.get? id = some a)
    (hb : r.get? id' = some b) (hkey : key a = key b) : id = id' := by
  have hfound := h.find?_iff.2 ⟨a, ha, hkey⟩
  have hfound' := h.find?_iff.2 ⟨b, hb, rfl⟩
  exact Option.some.inj (hfound.symm.trans hfound')

theorem Registers.nodup_keys (h : r.Registers requests) : (r.entries.toList.map key).Nodup := by
  apply List.pairwise_iff_getElem.2
  intro i j hi hj hij hkey
  rw [List.getElem_map, List.getElem_map, Array.getElem_toList, Array.getElem_toList] at hkey
  rw [List.length_map, Array.length_toList] at hi hj
  have ha : r.get? ⟨i⟩ = some r.entries[i] := Array.getElem?_eq_getElem hi
  have hb : r.get? ⟨j⟩ = some r.entries[j] := Array.getElem?_eq_getElem hj
  exact Nat.ne_of_lt hij (congrArg Id.index (h.id_unique ha hb hkey))

end Arena

end PointsTo
