import ProjectsApi.System.Sequential

/-!
# Records and reservations

In every reachable table each project record has exactly one name reservation, each
reservation points at a stored project, and so no two stored projects share a name
key.  Writes may fail in any way, applied or not.
-/

namespace ProjectsApi

open Foundation Dynamo Program

section Bijection

variable [CaseTables]

/-- The primary key `NAME#<k>/RESERVATION`. -/
def nameReservationKey (k : String) : Key := ⟨"NAME#" ++ k, "RESERVATION"⟩

theorem nameReservationKey_nameKey (name : String) :
    nameReservationKey (nameKey name) = reservationKey name := rfl

/-- Records and reservations of a table are in bijection. -/
structure ReservationsMatch (t : Table) : Prop where
  /-- A record's name is reserved for it, by its owner and with its timestamp. -/
  reserved : ∀ id record, t.lookup (recordKey id) = some record →
    ∃ name reservation, record.lookup "name" = some (.S name) ∧
      t.lookup (nameReservationKey (nameKey name)) = some reservation ∧
      reservation.lookup "projectId" = some (.S id) ∧
      reservation.lookup "ownerId" = record.lookup "ownerId" ∧
      reservation.lookup "createdAt" = record.lookup "createdAt"
  /-- A reservation points at a stored project, and is the one of its name. -/
  owned : ∀ k reservation, t.lookup (nameReservationKey k) = some reservation →
    ∃ id record name, reservation.lookup "projectId" = some (.S id) ∧
      t.lookup (recordKey id) = some record ∧ record.lookup "name" = some (.S name) ∧
      k = nameKey name
  /-- Stored projects have distinct name keys. -/
  distinct : ∀ id id' record record' name name',
    t.lookup (recordKey id) = some record → t.lookup (recordKey id') = some record' →
    record.lookup "name" = some (.S name) → record'.lookup "name" = some (.S name') →
    nameKey name = nameKey name' → id = id'

/-- A record has one reservation only. -/
theorem ReservationsMatch.unique {t : Table} (h : ReservationsMatch t) {id k k' : String}
    {reservation reservation' : Item}
    (hk : t.lookup (nameReservationKey k) = some reservation)
    (hk' : t.lookup (nameReservationKey k') = some reservation')
    (hid : reservation.lookup "projectId" = some (.S id))
    (hid' : reservation'.lookup "projectId" = some (.S id)) : k = k' := by
  obtain ⟨a, record, name, ha, hrecord, hname, rfl⟩ := h.owned k reservation hk
  obtain ⟨b, record', name', hb, hrecord', hname', rfl⟩ := h.owned k' reservation' hk'
  obtain rfl : a = id := by simpa [ha] using hid
  obtain rfl : b = a := by simpa [hb] using hid'
  rw [hrecord] at hrecord'
  obtain rfl := Option.some.inj hrecord'
  rw [hname] at hname'
  obtain rfl : name = name' := by simpa using hname'
  rfl

/-- What encodes a registry has matching records and reservations. -/
theorem Represents.reservationsMatch {R : Projects} {t : Table} (h : Represents R t) :
    ReservationsMatch t where
  reserved id record hrecord := by
    obtain ⟨e, he, rfl⟩ := h.record_eq_some.mp hrecord
    refine ⟨e.project.name, reservationItem e.project, by simp, ?_, ?_, by simp, by simp⟩
    · rw [nameReservationKey_nameKey]
      exact (h.reservation _ _).mpr ⟨id, e, he, rfl, rfl⟩
    · rw [reservationItem_projectId, Projects.projectId_eq he]
  owned k reservation hreservation := by
    rcases h.keys _ _ hreservation with ⟨id, hkey⟩ | ⟨name, hkey⟩
    · exact absurd (congrArg Key.sk hkey) (by decide : "RESERVATION" ≠ "META")
    · rw [hkey] at hreservation
      obtain ⟨id, e, he, hname, rfl⟩ := (h.reservation name reservation).mp hreservation
      have hk : k = nameKey name := by
        have htext := congrArg (String.toList ∘ Key.pk) hkey
        simp only [nameReservationKey, reservationKey, namePk, Function.comp_apply,
          String.toList_append] at htext
        exact String.toList_inj.mp (List.append_cancel_left htext)
      exact ⟨id, recordItem e, e.project.name,
        by rw [reservationItem_projectId, Projects.projectId_eq he],
        h.record_eq_some.mpr ⟨e, he, rfl⟩, recordItem_name e, hk.trans hname.symm⟩
  distinct id id' record record' name name' hrecord hrecord' hname hname' heq := by
    obtain ⟨e, he, rfl⟩ := h.record_eq_some.mp hrecord
    obtain ⟨e', he', rfl⟩ := h.record_eq_some.mp hrecord'
    obtain rfl : e.project.name = name := by simpa using hname
    obtain rfl : e'.project.name = name' := by simpa using hname'
    exact (Registry.eq_of_nameOf_eq he he' heq).1

variable [DatetimeParser]

/-- Whatever creates, deletes and transitions interleave, and however they fail, the
records and the reservations of the table are in bijection. -/
theorem reservations_match {svc : Service} {tr : List SystemLabel} {w : SystemWorld}
    (hrun : SystemRun svc (World.idle ∅) tr w) :
    ReservationsMatch w.store ∧
      (∀ id record, w.store.lookup (recordKey id) = some record →
        ∃! k, ∃ reservation, w.store.lookup (nameReservationKey k) = some reservation ∧
          reservation.lookup "projectId" = some (.S id)) ∧
      ∀ name, (w.store.lookup (reservationKey name)).isSome = true ↔
        ∃ id record stored, w.store.lookup (recordKey id) = some record ∧
          record.lookup "name" = some (.S stored) ∧ nameKey stored = nameKey name := by
  obtain ⟨R, hrep⟩ := SystemRun.represents hrun
  have hmatch := hrep.reservationsMatch
  refine ⟨hmatch, ?_, ?_⟩
  -- the reservation of its name is the only one that points at the record
  · intro id record hrecord
    obtain ⟨name, reservation, -, hreservation, hid, -, -⟩ := hmatch.reserved id record hrecord
    refine ⟨nameKey name, ⟨reservation, hreservation, hid⟩, ?_⟩
    rintro k ⟨reservation', hreservation', hid'⟩
    exact hmatch.unique hreservation' hreservation hid' hid
  · intro name
    rw [Option.isSome_iff_exists]
    constructor
    · rintro ⟨reservation, hreservation⟩
      obtain ⟨id, record, stored, -, hrecord, hstored, hk⟩ :=
        hmatch.owned (nameKey name) reservation hreservation
      exact ⟨id, record, stored, hrecord, hstored, hk.symm⟩
    · rintro ⟨id, record, stored, hrecord, hstored, hk⟩
      obtain ⟨stored', reservation, hstored', hreservation, -⟩ := hmatch.reserved id record hrecord
      obtain rfl : stored = stored' := by
        rw [hstored] at hstored'
        simpa using hstored'
      rw [hk] at hreservation
      exact ⟨reservation, hreservation⟩

end Bijection

section Instance

open scoped Sample

/-- After a delete, a race for the freed name and a transition of the winner. -/
theorem reservations_match_after_race :
    ∃ tr w record, SystemRun (Service.reference stubProvision) (World.idle ∅) tr w ∧
      Label.ret 0 (.delete earlierProject.projectId "key-2") (.ok Value.unit) ∈ tr ∧
        w.store.lookup (recordKey sampleProject.projectId) = some record ∧
          record.lookup "status" = some (.S "PROVISIONING") ∧ ReservationsMatch w.store := by
  obtain ⟨tr, t, hrun, hdeleted, hitem⟩ := exists_moved_run
  refine ⟨tr, _, _, hrun, hdeleted, hitem, ?_, (reservations_match hrun).1⟩
  rw [recordItem_status]
  rfl

end Instance

end ProjectsApi
