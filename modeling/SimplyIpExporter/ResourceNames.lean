import SimplyIpExporter.CanonicalSigning
import SimplyIpExporter.EndpointHandlers

/-!
# How the trail names a resource

An entry of the trail names what it is about by kind, identifier and name, in one
text. The text of an identifier has a fixed length, so that the identifier can be read
back from it, whatever the name is.
-/
namespace SimplyIpExporter.ResourceNames
open RustText Entities CanonicalSigning EndpointHandlers

def uuidDigits (id : Uuid) : List Char :=
  (digitsOf 16 32 id.toNat).map hexDigitChar

theorem toList_uuidText (id : Uuid) : (uuidText id).toList =
    (uuidDigits id).take 8 ++ '-' :: (((uuidDigits id).drop 8).take 4 ++ '-' ::
      (((uuidDigits id).drop 12).take 4 ++ '-' :: (((uuidDigits id).drop 16).take 4 ++ '-' ::
        ((uuidDigits id).drop 20).take 12))) := by
  unfold uuidText
  simp [uuidDigits]

theorem length_uuidText (id : Uuid) : (uuidText id).toList.length = 36 := by
  simp [toList_uuidText, uuidDigits, digitsOf]

theorem uuidDigits_inj {id id' : Uuid} (h : uuidDigits id = uuidDigits id') : id = id' := by
  have hbound : ∀ id : Uuid, id.toNat < 16 ^ 32 := fun id => id.isLt
  exact BitVec.eq_of_toNat_eq (digitsOf_inj (by decide) (fun _ hm _ hn => hexDigitChar_inj hm hn)
    (hbound id) (hbound id') h)

theorem hexDigitChar_ne_dash {n : ℕ} (h : n < 16) : hexDigitChar n ≠ '-' := by
  revert n
  decide

/-- The digits are what is left without the hyphens. -/
theorem digits_uuidText (id : Uuid) : (uuidText id).toList.filter (· != '-') = uuidDigits id := by
  have hdigits : ∀ l : List Char, (∀ c ∈ l, c ∈ uuidDigits id) → l.filter (· != '-') = l := by
    intro l hl
    refine List.filter_eq_self.mpr ?_
    intro c hc
    obtain ⟨d, hd, rfl⟩ := List.mem_map.mp (hl c hc)
    obtain ⟨i, -, rfl⟩ := List.mem_map.mp hd
    simpa using hexDigitChar_ne_dash (Nat.mod_lt _ (by decide))
  have hpart : ∀ m n, (((uuidDigits id).drop m).take n).filter (· != '-') =
      ((uuidDigits id).drop m).take n := by
    intro m n
    exact hdigits _ fun c hc => List.mem_of_mem_drop (List.mem_of_mem_take hc)
  have hfirst : ((uuidDigits id).take 8).filter (· != '-') = (uuidDigits id).take 8 :=
    hdigits _ fun c hc => List.mem_of_mem_take hc
  have hdash : ∀ l : List Char, ('-' :: l).filter (· != '-') = l.filter (· != '-') := by simp
  have hrest : ∀ m n, ((uuidDigits id).drop m).take n ++ (uuidDigits id).drop (m + n) =
      (uuidDigits id).drop m := by
    intro m n
    rw [← List.drop_drop, List.take_append_drop]
  have hlast : ((uuidDigits id).drop 20).take 12 = (uuidDigits id).drop 20 :=
    List.take_of_length_le (by simp [uuidDigits, digitsOf])
  simp only [toList_uuidText, List.filter_append, hdash, hpart, hfirst]
  rw [hlast, hrest 16 4, hrest 12 4, hrest 8 4, List.take_append_drop]

theorem uuidText_inj {id id' : Uuid} (h : (uuidText id).toList = (uuidText id').toList) :
    id = id' := by
  apply uuidDigits_inj
  rw [← digits_uuidText id, ← digits_uuidText id', h]

/-- The entry is about this resource. -/
def names (kind : String) (id : Uuid) (row : AuditLog) : Bool :=
  row.targetResource.any fun text =>
    (kind ++ ":" ++ uuidText id ++ " (").toList.isPrefixOf text.toList

theorem names_describeResource {row : AuditLog} {kind name : String} {id' : Uuid}
    (h : row.targetResource = some (describeResource kind id' name)) (id : Uuid) :
    names kind id row = decide (id' = id) := by
  have htext : (describeResource kind id' name).toList =
      (kind ++ ":").toList ++ ((uuidText id').toList ++ (" (" ++ name ++ ")").toList) := by
    simp [describeResource]
  have hstart : (kind ++ ":" ++ uuidText id ++ " (").toList =
      (kind ++ ":").toList ++ ((uuidText id).toList ++ " (".toList) := by
    simp
  rw [Bool.eq_iff_iff, names, h, Option.any_some, List.isPrefixOf_iff_prefix, decide_eq_true_eq,
    htext, hstart, List.prefix_append_right_inj]
  constructor
  · rintro ⟨rest, hrest⟩
    rw [List.append_assoc] at hrest
    have hlength : (uuidText id).toList.length = (uuidText id').toList.length := by
      rw [length_uuidText, length_uuidText]
    exact (uuidText_inj (List.append_inj_left hrest hlength)).symm
  · rintro rfl
    exact ⟨(name ++ ")").toList, by simp⟩

end SimplyIpExporter.ResourceNames
