import SourceOutline.NameTable

/-! Tables whose names stand in order.
Texts are compared character by character. Their encoding keeps that order, so it is the order of the
bytes as well. -/
namespace SourceOutline

namespace Text

def bytes (text : String) : List UInt8 := text.toUTF8.data.toList

theorem bytes_eq (text : String) : bytes text = text.toList.flatMap String.utf8EncodeChar := by
  obtain ⟨cs, rfl⟩ : ∃ cs, text = String.ofList cs := ⟨_, String.ofList_toList.symm⟩
  simp [bytes, String.toUTF8_eq_toByteArray, String.toByteArray_ofList, List.utf8Encode]

theorem ofNat_cons_lt_iff {m n : Nat} (hm : m < 256) (hn : n < 256) (xs ys : List UInt8) :
    UInt8.ofNat m :: xs < UInt8.ofNat n :: ys ↔ m < n ∨ m = n ∧ xs < ys := by
  rw [List.cons_lt_cons_iff, UInt8.lt_iff_toNat_lt, ← UInt8.toNat_inj, UInt8.toNat_ofNat',
    UInt8.toNat_ofNat', Nat.mod_eq_of_lt hm, Nat.mod_eq_of_lt hn]

/-- A longer encoding has a greater first byte, and in one of the same length the digits of the
code point stand from the highest to the lowest. -/
theorem utf8EncodeChar_append_lt {c d : Char} (h : c < d) (xs ys : List UInt8) :
    String.utf8EncodeChar c ++ xs < String.utf8EncodeChar d ++ ys := by
  have hlt : c.val.toNat < d.val.toNat := h
  have hmax : d.val.toNat < 0x110000 := by
    rcases d.valid with hd | ⟨_, hd⟩ <;> omega
  -- all digits but the highest one have six bits
  have htwo (v : Nat) : v / 4096 = v / 64 / 64 := by omega
  have hthree (v : Nat) : v / 262144 = v / 64 / 64 / 64 := by omega
  simp only [String.utf8EncodeChar]
  repeat' split
  all_goals
    simp (disch := omega) only [List.cons_append, List.nil_append, ofNat_cons_lt_iff, htwo, hthree]
    omega

theorem flatMap_utf8EncodeChar_lt {cs ds : List Char} (h : cs < ds) :
    cs.flatMap String.utf8EncodeChar < ds.flatMap String.utf8EncodeChar := by
  induction h with
  | @nil d ds =>
    rw [List.flatMap_cons]
    cases hd : String.utf8EncodeChar d with
    | nil => exact absurd hd String.utf8EncodeChar_ne_nil
    | cons b bs => exact List.nil_lt_cons _ _
  | rel h => exact utf8EncodeChar_append_lt h _ _
  | cons _ ih => exact List.append_left_lt ih

theorem bytes_lt {a b : String} (h : a < b) : bytes a < bytes b := by
  rw [bytes_eq, bytes_eq]
  exact flatMap_utf8EncodeChar_lt h

end Text

namespace NameTable
variable {α : Type} {t other : NameTable α} {name : String} {value : α}
  {entries : List (String × α)}

def Sorted (t : NameTable α) : Prop := t.entries.Pairwise fun e f => e.1 < f.1

theorem sorted_empty : (empty : NameTable α).Sorted := List.Pairwise.nil

theorem mem_of_mem_insertEntry {e : String × α} (h : e ∈ insertEntry name value entries) :
    e = (name, value) ∨ e ∈ entries := by
  induction entries with
  | nil => exact .inl (List.mem_singleton.1 h)
  | cons f rest ih =>
    unfold insertEntry at h
    split at h
    · exact (List.mem_cons.1 h).imp_right (List.mem_cons_of_mem f)
    · split at h
      · exact List.mem_cons.1 h
      · rcases List.mem_cons.1 h with rfl | h
        · exact .inr List.mem_cons_self
        · exact (ih h).imp_right (List.mem_cons_of_mem f)

theorem mem_of_lookup (h : lookup name entries = some value) : (name, value) ∈ entries := by
  induction entries with
  | nil => cases h
  | cons e rest ih =>
    unfold lookup at h
    split at h
    · next heq =>
      cases heq
      cases h
      exact List.mem_cons_self
    · exact List.mem_cons_of_mem e (ih h)

theorem Sorted.insert (h : t.Sorted) (name : String) (value : α) :
    (t.insert name value).Sorted := by
  obtain ⟨entries⟩ := t
  unfold Sorted NameTable.insert
  induction entries with
  | nil => exact List.pairwise_singleton _ _
  | cons e rest ih =>
    obtain ⟨hhead, hrest⟩ := List.pairwise_cons.1 h
    unfold insertEntry
    split
    · next heq => exact List.pairwise_cons.2 ⟨heq ▸ hhead, hrest⟩
    · next hne =>
      split
      · next hlt =>
        refine List.pairwise_cons.2 ⟨fun f hf => ?_, h⟩
        rcases List.mem_cons.1 hf with rfl | hf
        · exact hlt
        · exact String.lt_trans hlt (hhead f hf)
      · next hge =>
        refine List.pairwise_cons.2 ⟨fun f hf => ?_, ih hrest⟩
        rcases mem_of_mem_insertEntry hf with rfl | hf
        · -- the name is neither below the first one nor the same
          exact Decidable.byContradiction fun hnot =>
            hne (String.le_antisymm (String.not_lt.1 hge) (String.not_lt.1 hnot))
        · exact hhead f hf

theorem Sorted.merge (h : t.Sorted) (ho : other.Sorted) : (t.merge other).Sorted := by
  unfold NameTable.merge
  split
  · exact ho
  · clear ho
    induction other.entries with
    | nil => exact h
    | cons e rest ih => exact ih.insert e.1 e.2

/-- Nothing changes where the name has the value already. -/
theorem Sorted.insert_eq_self (h : t.Sorted) (hv : t.get? name = some value) :
    t.insert name value = t := by
  obtain ⟨entries⟩ := t
  refine congrArg NameTable.mk ?_
  change lookup name entries = some value at hv
  change entries.Pairwise _ at h
  induction entries with
  | nil => cases hv
  | cons e rest ih =>
    obtain ⟨hhead, hrest⟩ := List.pairwise_cons.1 h
    obtain ⟨key, old⟩ := e
    by_cases heq : key = name
    · subst heq
      have hold : old = value := by simpa [lookup] using hv
      simp [insertEntry, hold]
    · have hlookup : lookup name rest = some value := by simpa [lookup, heq] using hv
      have hlt : key < name := hhead _ (mem_of_lookup hlookup)
      simp [insertEntry, heq, String.lt_asymm hlt, ih hlookup hrest]

theorem sorted_ofList (entries : List (String × α)) : (ofList entries).Sorted := by
  suffices h : ∀ t : NameTable α, t.Sorted →
      (entries.foldl (fun t e => t.insert e.1 e.2) t).Sorted from h empty sorted_empty
  induction entries with
  | nil => exact fun t h => h
  | cons e rest ih => exact fun t h => ih _ (h.insert e.1 e.2)

theorem Sorted.nodup (h : t.Sorted) : t.names.Nodup := by
  refine List.pairwise_map.2 (List.Pairwise.imp (fun {e f} hlt heq => ?_) h)
  rw [heq] at hlt
  exact String.lt_irrefl _ hlt

theorem Sorted.mem_entries (h : t.Sorted) :
    (name, value) ∈ t.entries ↔ t.get? name = some value := by
  refine ⟨fun hmem => ?_, mem_of_lookup⟩
  obtain ⟨entries⟩ := t
  change lookup name entries = some value
  change entries.Pairwise _ at h
  induction entries with
  | nil => cases hmem
  | cons e rest ih =>
    obtain ⟨hhead, hrest⟩ := List.pairwise_cons.1 h
    rcases List.mem_cons.1 hmem with rfl | hmem
    · simp [lookup]
    · have hlt : e.1 < name := hhead _ hmem
      have hne : e.1 ≠ name := fun heq => String.lt_irrefl name (heq ▸ hlt)
      simp [lookup, hne, ih hmem hrest]

theorem Sorted.mem_names (h : t.Sorted) : name ∈ t.names ↔ t.contains name = true := by
  rw [contains, Option.isSome_iff_exists, names, List.mem_map]
  constructor
  · rintro ⟨⟨_, value⟩, hmem, rfl⟩
    exact ⟨value, h.mem_entries.1 hmem⟩
  · rintro ⟨value, hvalue⟩
    exact ⟨(name, value), h.mem_entries.2 hvalue, rfl⟩

end NameTable
end SourceOutline
