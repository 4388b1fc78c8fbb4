import Meshlite.Proto.Messages
import Mathlib.Data.List.Sort

/-!
# The certificate table

`certs` of Sigil's database: the serial number is the primary key and the service id
is unique, so a certificate issued for a service replaces the row of the last one.
-/

namespace Meshlite.Sigil

/-- A row; times are Unix seconds. -/
structure CertRow where
  serial : ℕ
  serviceId : String
  clusterId : String
  nspace : String
  certPem : Proto.Certificate
  expiresAt : ℕ
  rotateAt : ℕ
  deriving DecidableEq, Repr

structure CertTable where
  rows : List CertRow
  serials_nodup : (rows.map CertRow.serial).Nodup
  services_nodup : (rows.map CertRow.serviceId).Nodup

namespace CertTable

def empty : CertTable where
  rows := []
  serials_nodup := List.nodup_nil
  services_nodup := List.nodup_nil

/-- The two rows agree on neither unique column. -/
def Distinct (row row' : CertRow) : Prop :=
  row'.serial ≠ row.serial ∧ row'.serviceId ≠ row.serviceId

instance (row row' : CertRow) : Decidable (Distinct row row') :=
  inferInstanceAs (Decidable (_ ∧ _))

theorem map_filter_snoc_nodup {α : Type} {f : CertRow → α} {rows : List CertRow} {row : CertRow}
    (h : (rows.map f).Nodup) (hrow : ∀ row', Distinct row row' → f row' ≠ f row) :
    ((rows.filter (Distinct row ·) ++ [row]).map f).Nodup := by
  rw [List.map_append, List.map_singleton, List.nodup_append]
  refine ⟨h.sublist (List.filter_sublist.map f), List.nodup_singleton _, ?_⟩
  intro a ha b hb
  obtain ⟨row', hmem, rfl⟩ := List.mem_map.mp ha
  rw [List.mem_singleton.mp hb]
  exact hrow row' (by simpa using (List.mem_filter.mp hmem).2)

/-- `INSERT OR REPLACE`: rows that conflict with the new one are deleted. -/
def insertOrReplace (t : CertTable) (row : CertRow) : CertTable where
  rows := t.rows.filter (Distinct row ·) ++ [row]
  serials_nodup := map_filter_snoc_nodup t.serials_nodup fun _ h => h.1
  services_nodup := map_filter_snoc_nodup t.services_nodup fun _ h => h.2

/-- `DELETE FROM certs WHERE service_id = ?`. -/
def delete (t : CertTable) (serviceId : String) : CertTable where
  rows := t.rows.filter (·.serviceId ≠ serviceId)
  serials_nodup := t.serials_nodup.sublist (List.filter_sublist.map _)
  services_nodup := t.services_nodup.sublist (List.filter_sublist.map _)

/-- `SELECT … ORDER BY service_id`. -/
def list (t : CertTable) : List CertRow :=
  t.rows.insertionSort fun row row' => row.serviceId ≤ row'.serviceId

variable {t : CertTable} {row row' : CertRow}

@[simp] theorem mem_list : row ∈ t.list ↔ row ∈ t.rows :=
  List.mem_insertionSort _

theorem mem_insertOrReplace :
    row' ∈ (t.insertOrReplace row).rows ↔ row' = row ∨ row' ∈ t.rows ∧ Distinct row row' := by
  simp [insertOrReplace, or_comm]

theorem mem_insertOrReplace_fresh (h : ∀ old ∈ t.rows, old.serial ≠ row.serial) :
    row' ∈ (t.insertOrReplace row).rows ↔
      row' = row ∨ row' ∈ t.rows ∧ row'.serviceId ≠ row.serviceId := by
  rw [mem_insertOrReplace]
  refine or_congr_right (and_congr_right fun hmem => ?_)
  exact and_iff_right (h row' hmem)

theorem mem_delete {serviceId : String} :
    row ∈ (t.delete serviceId).rows ↔ row ∈ t.rows ∧ row.serviceId ≠ serviceId := by
  simp [delete]

end CertTable

end Meshlite.Sigil
