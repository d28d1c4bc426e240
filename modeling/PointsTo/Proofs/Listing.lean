import Mathlib.Data.List.Induction
import Mathlib.Data.List.Nodup
import PointsTo.Proofs.Scope

/-!
# Listings

Two tables can say the same thing twice: every entry of the one names its owner, an entry of the other,
and every owner lists what it owns. A listing is a pair of such tables that agree. In addition the entries
of one owner are told apart by keys.

Tables are looked at through what matters here: an owner is the list that it keeps, and an entry is the
position of its owner together with its key.

- `entriesOf`: what an owner should list.
- `Listing`: the lists are what they should be, and keys are distinct.
- `Listing.declare`: a new owner that comes with entries.
- `Listing.add`: a new entry of an old owner.
-/

namespace PointsTo

/-- A change of one entry that adds items to the list that `g` shows. -/
theorem map_modify_append {α β : Type} {f : α → α} {g : α → List β} {items : List β}
    (h : ∀ a, g (f a) = g a ++ items) (xs : Array α) (i : Nat) :
    (xs.modify i f).map g = (xs.map g).modify i (· ++ items) := by
  apply Array.ext_getElem?
  intro j
  simp only [Array.getElem?_map, Array.getElem?_modify]
  split
  · rw [Option.map_map, Option.map_map]
    exact congrArg (Option.map · xs[j]?) (funext h)
  · rfl

variable {κ β : Type}

/-! ## §1 What an owner should list -/

/-- The entries of one owner in their order, each as the owner should list it. -/
def entriesOf (item : κ → Nat → β) (entries : Array (Nat × κ)) (owner : Nat) : List β :=
  entries.toList.zipIdx.filterMap fun (entry, k) =>
    if entry.1 = owner then some (item entry.2 k) else none

variable {item : κ → Nat → β} {entries : Array (Nat × κ)} {owner : Nat}

theorem mem_entriesOf {b : β} :
    b ∈ entriesOf item entries owner ↔ ∃ k key, entries[k]? = some (owner, key) ∧ item key k = b := by
  simp only [entriesOf, List.mem_filterMap, List.mem_zipIdx_iff_getElem?, Array.getElem?_toList,
    Option.ite_none_right_eq_some, Option.some.injEq]
  constructor
  · rintro ⟨⟨⟨o, key⟩, k⟩, hk, rfl, hb⟩
    exact ⟨k, key, hk, hb⟩
  · rintro ⟨k, key, hk, hb⟩
    exact ⟨((owner, key), k), hk, rfl, hb⟩

theorem entriesOf_push (o : Nat) (key : κ) :
    entriesOf item (entries.push (o, key)) owner =
      entriesOf item entries owner ++ if o = owner then [item key entries.size] else [] := by
  by_cases ho : o = owner <;> simp [entriesOf, List.zipIdx_append, ho]

/-- An owner without entries should list nothing. -/
theorem entriesOf_eq_nil (h : ∀ entry ∈ entries, entry.1 ≠ owner) :
    entriesOf item entries owner = [] := by
  apply List.eq_nil_iff_forall_not_mem.2
  intro b hb
  obtain ⟨k, key, hk, _⟩ := mem_entriesOf.1 hb
  exact h _ (Array.mem_of_getElem? hk) rfl

/-- No entry is listed twice, if an item tells the position of its entry. -/
theorem nodup_entriesOf (hitem : ∀ {key key' k k'}, item key k = item key' k' → k = k') :
    (entriesOf item entries owner).Nodup := by
  have hpositions : entries.toList.zipIdx.Pairwise fun e e' => e.2 ≠ e'.2 := by
    apply List.pairwise_map.1
    rw [List.zipIdx_map_snd]
    exact List.nodup_range'
  apply List.Pairwise.filterMap _ _ hpositions
  intro e e' hne b hb b' hb' heq
  -- both items come from entries of the owner, so they tell the positions
  simp only [Option.ite_none_right_eq_some, Option.some.injEq] at hb hb'
  exact hne (hitem (hb.2.trans (heq.trans hb'.2.symm)))

/-! ## §2 Listings -/

/-- The owners list what they own, and the entries of one owner have distinct keys. -/
structure Listing (item : κ → Nat → β) (lists : Array (List β)) (entries : Array (Nat × κ)) :
    Prop where
  owned : ∀ entry ∈ entries, entry.1 < lists.size
  listed : ∀ {i l}, lists[i]? = some l → l = entriesOf item entries i
  distinct : entries.toList.Nodup

namespace Listing

variable {lists : Array (List β)}

theorem empty : Listing item #[] #[] := by
  constructor <;> simp

/-- An old owner gets an entry with a new key. -/
theorem add (h : Listing item lists entries) {key : κ} (howner : owner < lists.size)
    (hfresh : (owner, key) ∉ entries) :
    Listing item (lists.modify owner (· ++ [item key entries.size])) (entries.push (owner, key)) where
  owned := by
    rw [Array.size_modify]
    exact forall_mem_push h.owned howner
  listed {i l} hl := by
    rw [entriesOf_push]
    rw [Array.getElem?_modify] at hl
    split at hl
    · rename_i heq
      obtain ⟨old, hold, rfl⟩ := Option.map_eq_some_iff.1 hl
      rw [if_pos heq, h.listed hold]
    · rename_i hne
      rw [if_neg hne, List.append_nil]
      exact h.listed hl
  distinct := by
    rw [Array.toList_push, ← List.concat_eq_append]
    exact h.distinct.concat (by simpa using hfresh)

/-- A new owner comes with no entries. -/
theorem declareEmpty (h : Listing item lists entries) : Listing item (lists.push []) entries where
  owned entry hentry := by
    rw [Array.size_push]
    exact Nat.lt_succ_of_lt (h.owned entry hentry)
  listed {i l} hl := by
    rw [Array.getElem?_push] at hl
    split at hl
    · rename_i heq
      cases hl
      -- owners of old entries come before the new owner
      exact (entriesOf_eq_nil fun entry hentry => heq ▸ Nat.ne_of_lt (h.owned entry hentry)).symm
    · exact h.listed hl
  distinct := h.distinct

/-- A new owner comes with entries of its own. -/
theorem declare (h : Listing item lists entries) {keys : List κ} (hkeys : keys.Nodup) :
    Listing item
      (lists.push ((keys.zipIdx entries.size).map fun (key, k) => item key k))
      (entries ++ (keys.map (lists.size, ·)).toArray) := by
  -- the entries are added one after the other
  induction keys using List.reverseRecOn with
  | nil => simpa using h.declareEmpty
  | append_singleton keys key ih =>
    obtain ⟨hold, _, hdisjoint⟩ := List.nodup_append.1 hkeys
    have hfresh : (lists.size, key) ∉ entries ++ (keys.map (lists.size, ·)).toArray := by
      intro hmem
      rcases Array.mem_append.1 hmem with hmem | hmem
      · exact Nat.lt_irrefl _ (h.owned _ hmem)
      · exact hdisjoint key (by simpa using hmem) key (by simp) rfl
    have hadd := (ih hold).add (by simp) hfresh
    rw [modify_push_last] at hadd
    simpa [List.zipIdx_append] using hadd

/-! ## §3 Tables that form a listing -/

section Tables

variable {α γ : Type} {owners : Array α} {table : Array γ} {list : α → List β} {entry : γ → Nat × κ}

/-- An owner lists precisely the entries that name it. -/
theorem mem_list_iff (h : Listing item (owners.map list) (table.map entry)) {i : Nat} {a : α}
    (ha : owners[i]? = some a) {b : β} :
    b ∈ list a ↔ ∃ k c, table[k]? = some c ∧ (entry c).1 = i ∧ item (entry c).2 k = b := by
  rw [h.listed (Array.getElem?_map.trans (congrArg _ ha)), mem_entriesOf]
  constructor
  · rintro ⟨k, key, hk, hb⟩
    rw [Array.getElem?_map] at hk
    obtain ⟨c, hc, heq⟩ := Option.map_eq_some_iff.1 hk
    refine ⟨k, c, hc, ?_, ?_⟩ <;> rw [heq]
    exact hb
  · rintro ⟨k, c, hc, rfl, hb⟩
    exact ⟨k, (entry c).2, by rw [Array.getElem?_map, hc]; rfl, hb⟩

theorem nodup_list (h : Listing item (owners.map list) (table.map entry))
    (hitem : ∀ {key key' k k'}, item key k = item key' k' → k = k') {i : Nat} {a : α}
    (ha : owners[i]? = some a) : (list a).Nodup := by
  rw [h.listed (Array.getElem?_map.trans (congrArg _ ha))]
  exact nodup_entriesOf hitem

/-- The owner of an entry exists. -/
theorem exists_owner (h : Listing item (owners.map list) (table.map entry)) {k : Nat} {c : γ}
    (hc : table[k]? = some c) : ∃ a, owners[(entry c).1]? = some a := by
  have hlt := h.owned (entry c) (Array.mem_map_of_mem (Array.mem_of_getElem? hc))
  rw [Array.size_map] at hlt
  exact ⟨_, Array.getElem?_eq_getElem hlt⟩

/-- An owner has at most one entry with a given key. -/
theorem position_unique (h : Listing item (owners.map list) (table.map entry)) {k k' : Nat} {c c' : γ}
    (hc : table[k]? = some c) (hc' : table[k']? = some c') (hsame : entry c = entry c') : k = k' := by
  have hk : (table.map entry).toList[k]? = some (entry c) := by simp [hc]
  have hk' : (table.map entry).toList[k']? = some (entry c) := by simp [hc', hsame]
  obtain ⟨hlt, _⟩ := List.getElem?_eq_some_iff.1 hk
  exact (List.getElem?_inj hlt h.distinct).1 (hk.trans hk'.symm)

/-- A key is a new one if the owner lists no entry that has it. -/
theorem fresh (h : Listing item (owners.map list) (table.map entry)) {i : Nat} {a : α}
    (ha : owners[i]? = some a) {key : κ}
    (hnone : ∀ {k c}, table[k]? = some c → item key k ∈ list a → (entry c).2 ≠ key) :
    (i, key) ∉ table.map entry := by
  intro hmem
  obtain ⟨c, hc, heq⟩ := Array.mem_map.1 hmem
  obtain ⟨k, hk⟩ := Array.mem_iff_getElem?.1 hc
  have hlisted := (h.mem_list_iff ha).2 ⟨k, c, hk, by rw [heq], by rw [heq]⟩
  exact hnone hk hlisted (by rw [heq])

/-- An owner gets an entry with a new key and lists it after those that it has. -/
theorem addTo (h : Listing item (owners.map list) (table.map entry)) {i : Nat} {a : α}
    (ha : owners[i]? = some a) {c : γ} (howner : (entry c).1 = i)
    (hfresh : (i, (entry c).2) ∉ table.map entry) {f : α → α}
    (hf : ∀ a, list (f a) = list a ++ [item (entry c).2 table.size]) :
    Listing item ((owners.modify i f).map list) ((table.push c).map entry) := by
  obtain ⟨hlt, _⟩ := Array.getElem?_eq_some_iff.1 ha
  have hadd := h.add (by simpa using hlt) hfresh
  rw [Array.size_map] at hadd
  rw [map_modify_append hf, Array.map_push]
  rw [← howner] at hadd ⊢
  exact hadd

end Tables

end Listing

end PointsTo
