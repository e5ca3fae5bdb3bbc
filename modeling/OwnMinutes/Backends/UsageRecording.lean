import OwnMinutes.Local.Calls
import OwnMinutes.Postgres.FinalizerLedger
import OwnMinutes.Quota.UsageNotes

/-! # What counts as recorded

Both backends look for a meeting's id and a result's stamp anywhere in the notes. A note is thereby taken for
one of each meeting whose id its own meeting's id begins with; in `like`, an underscore of the id stands for any
character as well. -/

namespace OwnMinutes.Backends.UsageRecording

open OwnMinutes.Lib.Occurrences OwnMinutes.Lib.Outcome OwnMinutes.Auth.ProcessingRoute OwnMinutes.Auth.Records
open OwnMinutes.Auth.QuotaTypes OwnMinutes.Quota.UsageNotes
open OwnMinutes.Local.Store (AuthStore)
open OwnMinutes.Postgres.Store (Tables Database)

variable {input : RecordMeetingFinalizeUsageInput} {event : UsageEventRecord} {n : UsageNote} {userId : UserId}

/-! ### The keys of an event -/

/-- A finalization of the user. -/
def OfUser (userId : UserId) (event : UsageEventRecord) : Prop :=
  event.userId = userId ∧ event.type = .meetingFinalize

def SameReservation (input : RecordMeetingFinalizeUsageInput) (event : UsageEventRecord) : Prop :=
  input.reservationId.isSome = true ∧ event.processingReservationId = input.reservationId

/-- The result of the call or, where the call is no reprocess, none. -/
def SameResult (input : RecordMeetingFinalizeUsageInput) (n : UsageNote) : Prop :=
  n.result = some input.resultGeneratedAt.toList ∨ (input.isReprocess = false ∧ n.result = none)

def NoteOf (event : UsageEventRecord) (n : UsageNote) : Prop := n.WellFormed ∧ event.note.toList = n.text

/-- The event is of the reservation of the call, or of its meeting and result. -/
def Keyed (input : RecordMeetingFinalizeUsageInput) (event : UsageEventRecord) : Prop :=
  SameReservation input event ∨
    ∃ n, NoteOf event n ∧ n.meetingId = input.meetingId.toList ∧ SameResult input n

def Recorded (events : List UsageEventRecord) (userId : UserId) (input : RecordMeetingFinalizeUsageInput) : Prop :=
  ∃ event ∈ events, OfUser userId event ∧ Keyed input event

/-- The event is of another meeting, whose id begins with that of the call. -/
def OfLongerId (input : RecordMeetingFinalizeUsageInput) (event : UsageEventRecord) : Prop :=
  ∃ n, NoteOf event n ∧ SameResult input n ∧ n.meetingId ≠ input.meetingId.toList ∧
    input.meetingId.toList <+: n.meetingId

/-- `text like 'id%'` for the ids of meetings. -/
def Matches : Text → Text → Prop
  | [], _ => True
  | _ :: _, [] => False
  | c :: id, d :: text => (c = '_' ∨ c = d) ∧ Matches id text

/-- The event is of another meeting, and its note has after the key what the id of the call matches. -/
def OfMatchingId (input : RecordMeetingFinalizeUsageInput) (event : UsageEventRecord) : Prop :=
  ∃ n, NoteOf event n ∧ SameResult input n ∧ n.meetingId ≠ input.meetingId.toList ∧
    Matches input.meetingId.toList (n.meetingId ++ n.tail)

/-- The notes of finalizations name a meeting as `buildMeetingUsageNote` does, or none. -/
def Written (events : List UsageEventRecord) : Prop :=
  ∀ event ∈ events, event.type = .meetingFinalize → (∃ n, NoteOf event n) ∨ ¬ usageKey <:+: event.note.toList

/-! ### What the backends find -/

/-- The second test of both backends, on the result. -/
def resultFound (input : RecordMeetingFinalizeUsageInput) (note : String) : Bool :=
  textIncludes note ("result:" ++ input.resultGeneratedAt) || (!input.isReprocess && !textIncludes note "result:")

theorem decide_iff {p : Prop} {inst : Decidable p} : @decide p inst = true ↔ p :=
  ⟨@of_decide_eq_true p inst, @decide_eq_true p inst⟩

theorem textIncludes_iff {text part : String} : textIncludes text part = true ↔ part.toList <:+: text.toList :=
  decide_iff

theorem resultFound_iff (hstamp : isStamp input.resultGeneratedAt.toList = true) (hn : NoteOf event n) :
    resultFound input event.note = true ↔ SameResult input n := by
  have hkey : textIncludes event.note "result:" = false ↔ n.result = none := by
    rw [← Bool.not_eq_true, textIncludes_iff, hn.2, ← not_ne_iff (a := n.result)]
    exact not_congr (result_key_iff hn.1)
  have hresult : textIncludes event.note ("result:" ++ input.resultGeneratedAt) = true ↔
      n.result = some input.resultGeneratedAt.toList := by
    rw [textIncludes_iff, hn.2, String.toList_append]
    exact result_infix_iff hn.1 hstamp
  unfold resultFound SameResult
  rw [Bool.or_eq_true, hresult, Bool.and_eq_true, Bool.not_eq_true', Bool.not_eq_true', hkey]

theorem local_note_iff (hid : isMeetingId input.meetingId.toList = true) (hn : NoteOf event n) :
    textIncludes event.note ("meeting:" ++ input.meetingId) = true ↔ input.meetingId.toList <+: n.meetingId := by
  rw [textIncludes_iff, hn.2, String.toList_append]
  exact meeting_infix_iff hn.1 hid

theorem like_percent (text : Text) : Postgres.Quota.like ['%'] text = true := by
  rw [Postgres.Quota.like, List.any_eq_true]
  exact ⟨[], (List.mem_tails _ _).mpr (List.nil_suffix), rfl⟩

theorem like_cons {c : Char} (hpercent : c ≠ '%') (hunderscore : c ≠ '_') (hquote : c ≠ '\\') (pattern : Text) (d : Char)
    (text : Text) : Postgres.Quota.like (c :: pattern) (d :: text) = (c == d && Postgres.Quota.like pattern text) := by
  rw [Postgres.Quota.like.eq_def]
  split
  · rename_i h
    cases h
  · rename_i h
    exact absurd (List.cons.inj h).1 hpercent
  · rename_i h
    exact absurd (List.cons.inj h).1 hunderscore
  · rename_i h
    exact absurd (List.cons.inj h).1 hquote
  · rename_i h
    obtain ⟨rfl, rfl⟩ := List.cons.inj h
    rfl

theorem like_cons_nil {c : Char} (hpercent : c ≠ '%') (pattern : Text) :
    Postgres.Quota.like (c :: pattern) [] = false := by
  rw [Postgres.Quota.like.eq_def]
  split
  · rename_i h
    cases h
  · rename_i h
    exact absurd (List.cons.inj h).1 hpercent
  all_goals rfl

/-- In the texts of ids only the underscore is special. -/
theorem like_iff {id : Text} (hpercent : '%' ∉ id) (hquote : '\\' ∉ id) (text : Text) :
    Postgres.Quota.like (id ++ ['%']) text = true ↔ Matches id text := by
  induction id generalizing text with
  | nil => simp [like_percent, Matches]
  | cons c id ih =>
    rw [List.mem_cons, not_or] at hpercent hquote
    by_cases hc : c = '_'
    · subst hc
      cases text with
      | nil => simp [Postgres.Quota.like, Matches]
      | cons d text => simpa [Postgres.Quota.like, Matches] using ih hpercent.2 hquote.2 text
    · cases text with
      | nil =>
        rw [List.cons_append, like_cons_nil fun h => hpercent.1 h.symm]
        simp [Matches]
      | cons d text =>
        rw [List.cons_append, like_cons (fun h => hpercent.1 h.symm) hc fun h => hquote.1 h.symm, Bool.and_eq_true,
          beq_iff_eq, ih hpercent.2 hquote.2 text]
        simp [Matches, hc]

theorem matches_append {key id text : Text} (hkey : '_' ∉ key) :
    Matches (key ++ id) text ↔ ∃ rest, text = key ++ rest ∧ Matches id rest := by
  induction key generalizing text with
  | nil => simp
  | cons c key ih =>
    rw [List.mem_cons, not_or] at hkey
    cases text with
    | nil => simp [Matches]
    | cons d text =>
      have hc : c ≠ '_' := fun h => hkey.1 h.symm
      simp only [List.cons_append, Matches, hc, false_or, ih hkey.2, List.cons.injEq]
      constructor
      · rintro ⟨rfl, rest, rfl, h⟩
        exact ⟨rest, ⟨rfl, rfl⟩, h⟩
      · rintro ⟨rest, ⟨rfl, rfl⟩, h⟩
        exact ⟨rfl, rest, rfl, h⟩

variable {meetingId : String}

theorem noteLike_iff {note : String} (hid : isMeetingId meetingId.toList = true) :
    Postgres.Quota.noteLike note meetingId = true ↔
      ∃ s rest, note.toList = s ++ (usageKey ++ rest) ∧ Matches meetingId.toList rest := by
  have hpercent : '%' ∉ usageKey ++ meetingId.toList := by
    rw [List.mem_append, not_or]
    exact ⟨by decide, not_mem_meetingId hid (by decide)⟩
  have hquote : '\\' ∉ usageKey ++ meetingId.toList := by
    rw [List.mem_append, not_or]
    exact ⟨by decide, not_mem_meetingId hid (by decide)⟩
  have hlike : Postgres.Quota.noteLike note meetingId =
      note.toList.tails.any (Postgres.Quota.like ((usageKey ++ meetingId.toList) ++ ['%'])) := by
    unfold Postgres.Quota.noteLike usageKey
    rw [String.toList_append]
    rfl
  rw [hlike, List.any_eq_true]
  constructor
  · rintro ⟨suffix, hsuffix, hmatch⟩
    obtain ⟨s, hs⟩ := (List.mem_tails _ _).mp hsuffix
    rw [like_iff hpercent hquote, matches_append (by decide)] at hmatch
    obtain ⟨rest, rfl, hrest⟩ := hmatch
    exact ⟨s, rest, hs.symm, hrest⟩
  · rintro ⟨s, rest, hnote, hrest⟩
    refine ⟨usageKey ++ rest, (List.mem_tails _ _).mpr ⟨s, hnote.symm⟩, ?_⟩
    rw [like_iff hpercent hquote, matches_append (by decide)]
    exact ⟨rest, rfl, hrest⟩

theorem postgres_note_iff (hid : isMeetingId input.meetingId.toList = true) (hn : NoteOf event n) :
    Postgres.Quota.noteLike event.note input.meetingId = true ↔
      Matches input.meetingId.toList (n.meetingId ++ n.tail) := by
  rw [noteLike_iff hid, hn.2, UsageNote.text_eq]
  constructor
  · rintro ⟨s, rest, htext, hrest⟩
    rwa [once_meeting hn.1 s rest htext] at hrest
  · exact fun h => ⟨_, _, rfl, h⟩

theorem matches_of_prefix {id text : Text} (h : id <+: text) : Matches id text := by
  obtain ⟨rest, rfl⟩ := h
  induction id with
  | nil => trivial
  | cons c id ih => exact ⟨Or.inr rfl, ih⟩

theorem local_recorded_iff (hid : isMeetingId input.meetingId.toList = true)
    (hstamp : isStamp input.resultGeneratedAt.toList = true) {store : AuthStore} (hwritten : Written store.usageEvents) :
    Local.Quota.finalizeUsageRecorded store userId input = true ↔
      ∃ event ∈ store.usageEvents, OfUser userId event ∧
        (SameReservation input event ∨
          ∃ n, NoteOf event n ∧ SameResult input n ∧ input.meetingId.toList <+: n.meetingId) := by
  have hnote : ∀ event ∈ store.usageEvents, OfUser userId event →
      ((textIncludes event.note ("meeting:" ++ input.meetingId) && resultFound input event.note) = true ↔
        ∃ n, NoteOf event n ∧ SameResult input n ∧ input.meetingId.toList <+: n.meetingId) := by
    intro event hevent huser
    rw [Bool.and_eq_true]
    constructor
    · rintro ⟨hmeeting, hresult⟩
      rcases hwritten event hevent huser.2 with ⟨n, hn⟩ | hnone
      · exact ⟨n, hn, (resultFound_iff hstamp hn).mp hresult, (local_note_iff hid hn).mp hmeeting⟩
      · rw [textIncludes_iff, String.toList_append] at hmeeting
        exact absurd ((List.prefix_append _ _).isInfix.trans hmeeting) hnone
    · rintro ⟨n, hn, hresult, hbegins⟩
      exact ⟨(local_note_iff hid hn).mpr hbegins, (resultFound_iff hstamp hn).mpr hresult⟩
  unfold Local.Quota.finalizeUsageRecorded
  rw [List.any_eq_true]
  refine exists_congr fun event => and_congr_right fun hevent => ?_
  rw [Bool.and_eq_true, Bool.and_eq_true, beq_iff_eq, beq_iff_eq, Bool.or_eq_true, Bool.and_eq_true, beq_iff_eq]
  refine and_congr_right fun huser => or_congr_right ?_
  exact hnote event hevent huser

theorem postgres_recorded_iff (hid : isMeetingId input.meetingId.toList = true)
    (hstamp : isStamp input.resultGeneratedAt.toList = true) {t : Tables} (hwritten : Written t.usageEvents) :
    Postgres.Quota.finalizeUsageRecorded t userId input = true ↔
      ∃ event ∈ t.usageEvents, OfUser userId event ∧
        (SameReservation input event ∨
          ∃ n, NoteOf event n ∧ SameResult input n ∧ Matches input.meetingId.toList (n.meetingId ++ n.tail)) := by
  have hnote : ∀ event ∈ t.usageEvents, OfUser userId event →
      (Postgres.Quota.noteLike event.note input.meetingId = true ∧ resultFound input event.note = true ↔
        ∃ n, NoteOf event n ∧ SameResult input n ∧ Matches input.meetingId.toList (n.meetingId ++ n.tail)) := by
    intro event hevent huser
    constructor
    · rintro ⟨hmeeting, hresult⟩
      rcases hwritten event hevent huser.2 with ⟨n, hn⟩ | hnone
      · exact ⟨n, hn, (resultFound_iff hstamp hn).mp hresult, (postgres_note_iff hid hn).mp hmeeting⟩
      · obtain ⟨s, rest, hs, -⟩ := (noteLike_iff hid).mp hmeeting
        exact absurd ⟨s, rest, by rw [hs, List.append_assoc]⟩ hnone
    · rintro ⟨n, hn, hresult, hmatch⟩
      exact ⟨(postgres_note_iff hid hn).mpr hmatch, (resultFound_iff hstamp hn).mpr hresult⟩
  unfold Postgres.Quota.finalizeUsageRecorded
  simp only [List.any_filter, List.any_eq_true, Bool.and_eq_true, Bool.or_eq_true, beq_iff_eq]
  refine exists_congr fun event => and_congr_right fun hevent => ?_
  constructor
  · rintro ⟨⟨huser, hreservation | hlike⟩, hfound⟩
    · exact ⟨huser, Or.inl hreservation⟩
    · refine ⟨huser, ?_⟩
      rcases hfound with (hreservation | hresult) | hlegacy
      · exact Or.inl hreservation
      · refine Or.inr ((hnote event hevent huser).mp ⟨hlike, ?_⟩)
        rw [resultFound, hresult, Bool.true_or]
      · refine Or.inr ((hnote event hevent huser).mp ⟨hlike, ?_⟩)
        rw [resultFound, Bool.or_eq_true, Bool.and_eq_true]
        exact Or.inr hlegacy
  · rintro ⟨huser, hreservation | hn⟩
    · exact ⟨⟨huser, Or.inl hreservation⟩, Or.inl (Or.inl hreservation)⟩
    · obtain ⟨hlike, hfound⟩ := (hnote event hevent huser).mpr hn
      refine ⟨⟨huser, Or.inr hlike⟩, ?_⟩
      rw [resultFound, Bool.or_eq_true, Bool.and_eq_true] at hfound
      rcases hfound with hresult | hlegacy
      · exact Or.inl (Or.inr hresult)
      · exact Or.inr hlegacy

/-! ### The event that a call adds -/

/-- The figures that a call writes: those of its reservation, where it has one. -/
def recordedUsage (input : RecordMeetingFinalizeUsageInput)
    (reservation : Option MeetingProcessingReservationRecord) : MeetingUsage :=
  let calculatedUsage := calculateMeetingUsage input.durationMs input.route
  { calculatedUsage with
    officialMinutesCharged :=
      match reservation with
      | some reservation => reservation.officialMinutesSettled
      | none => max 0 calculatedUsage.officialMinutesCharged }

/-- The event of a call of this user with this reservation. -/
structure Adds (userId : UserId) (input : RecordMeetingFinalizeUsageInput)
    (reservation : Option MeetingProcessingReservationRecord) (event : UsageEventRecord) : Prop where
  ofUser : OfUser userId event
  note : event.note =
    buildMeetingUsageNote input.meetingId input.resultGeneratedAt input.route (recordedUsage input reservation)
  reservation : event.processingReservationId = reservation.map (·.id)

variable {now : Timestamp} {newId : UsageEventId} {u : Unit}

theorem local_adds {store t : AuthStore}
    (h : Local.Quota.recordFinalizeUsage now newId userId input store = .ok (u, t))
    (hnew : Local.Quota.finalizeUsageRecorded store userId input = false) :
    ∃ event, t.usageEvents = store.usageEvents ++ [event] ∧
      Adds userId input (Local.Quota.findRecordedReservation store userId input) event := by
  obtain ⟨user, -, h⟩ := bind_eq_ok.mp h
  rw [hnew] at h
  simp only [Bool.false_eq_true, if_false] at h
  cases hreservation : Local.Quota.findRecordedReservation store userId input with
  | none =>
    simp only [hreservation] at h
    obtain ⟨-, h⟩ := guard_eq_ok.mp h
    obtain ⟨charged, hcharged, h⟩ := bind_eq_ok.mp h
    unfold Local.Quota.settleLocalLegacyUsage at hcharged
    obtain ⟨-, hcharged⟩ := guard_eq_ok.mp hcharged
    cases hcharged
    cases h
    exact ⟨_, rfl, ⟨rfl, rfl⟩, rfl, rfl⟩
  | some reservation =>
    simp only [hreservation] at h
    obtain ⟨-, h⟩ := guard_eq_ok.mp h
    obtain ⟨-, h⟩ := guard_eq_ok.mp h
    cases h
    exact ⟨_, rfl, ⟨rfl, rfl⟩, rfl, rfl⟩

theorem increment_usageEvents (t : Tables) (user : UserRecord) (minutes : ℤ) :
    (Postgres.Quota.incrementPostgresOfficialMinutes t user minutes).1.usageEvents = t.usageEvents := by
  unfold Postgres.Quota.incrementPostgresOfficialMinutes Postgres.Store.Tables.updateUser
  split_ifs
  · rfl
  · dsimp only
    split
    · rfl
    · split_ifs <;> rfl

theorem postgres_adds {db t : Database}
    (h : Postgres.Quota.recordFinalizeUsage now newId userId input db = .ok (u, t))
    (hnew : Postgres.Quota.finalizeUsageRecorded db.toTables userId input = false) :
    ∃ event, t.usageEvents = db.usageEvents ++ [event] ∧
      Adds userId input (Postgres.Quota.selectRecordedReservation db.toTables userId input) event := by
  obtain ⟨t', h, ht⟩ := Postgres.Calls.postgresTransaction_ok h
  obtain ⟨user, -, h⟩ := bind_eq_ok.mp h
  rw [ht]
  rw [hnew] at h
  simp only [Bool.false_eq_true, if_false] at h
  cases hreservation : Postgres.Quota.selectRecordedReservation db.toTables userId input with
  | none =>
    simp only [hreservation] at h
    obtain ⟨-, h⟩ := guard_eq_ok.mp h
    obtain ⟨⟨charged, settled⟩, hsettle, h⟩ := bind_eq_ok.mp h
    unfold Postgres.Quota.settlePostgresLegacyUsage at hsettle
    obtain ⟨-, hsettle⟩ := guard_eq_ok.mp hsettle
    cases hsettle
    cases h
    refine ⟨_, congrArg (· ++ [_]) (increment_usageEvents _ _ _), ?_⟩
    exact ⟨⟨rfl, rfl⟩, rfl, rfl⟩
  | some reservation =>
    simp only [hreservation] at h
    obtain ⟨-, h⟩ := guard_eq_ok.mp h
    obtain ⟨-, h⟩ := guard_eq_ok.mp h
    cases h
    exact ⟨_, rfl, ⟨rfl, rfl⟩, rfl, rfl⟩

/-! ### Two calls -/

/-- The parts of the note of a call. -/
def noteOfCall (input : RecordMeetingFinalizeUsageInput) (reservation : Option MeetingProcessingReservationRecord) :
    UsageNote :=
  ⟨input.meetingId.toList, some input.resultGeneratedAt.toList, figures input.route (recordedUsage input reservation)⟩

/-- The call names another reservation, if any. -/
def OtherReservation (other : RecordMeetingFinalizeUsageInput)
    (reservation : Option MeetingProcessingReservationRecord) : Prop :=
  ∀ r, reservation = some r → other.reservationId ≠ some r.id

section TwoCalls

variable {other : RecordMeetingFinalizeUsageInput} {reservation : Option MeetingProcessingReservationRecord}

theorem Adds.noteOf (h : Adds userId input reservation event) (hid : isMeetingId input.meetingId.toList = true)
    (hstamp : isStamp input.resultGeneratedAt.toList = true) : NoteOf event (noteOfCall input reservation) := by
  refine ⟨wellFormed_note hid hstamp _ _, ?_⟩
  rw [h.note]
  exact toList_note_eq_text _ _ _ _

theorem Adds.not_sameReservation (h : Adds userId input reservation event)
    (hother : OtherReservation other reservation) : ¬ SameReservation other event := by
  rintro ⟨hsome, hsame⟩
  rw [h.reservation] at hsame
  cases hreservation : reservation with
  | none =>
    rw [hreservation, Option.map_none] at hsame
    rw [← hsame] at hsome
    cases hsome
  | some r =>
    rw [hreservation, Option.map_some] at hsame
    exact hother r hreservation hsame.symm

theorem Adds.written (h : Adds userId input reservation event) (hid : isMeetingId input.meetingId.toList = true)
    (hstamp : isStamp input.resultGeneratedAt.toList = true) {events : List UsageEventRecord}
    (hwritten : Written events) : Written (events ++ [event]) := by
  intro e he htype
  rcases List.mem_append.mp he with he | he
  · exact hwritten e he htype
  · exact Or.inl ⟨_, (List.mem_singleton.mp he) ▸ h.noteOf hid hstamp⟩

theorem sameResult_noteOfCall : SameResult other (noteOfCall input reservation) ↔
    other.resultGeneratedAt = input.resultGeneratedAt := by
  unfold SameResult noteOfCall
  simp only [Option.some.injEq, reduceCtorEq, and_false, or_false, String.toList_inj]
  exact eq_comm

variable (hid : isMeetingId input.meetingId.toList = true) (hstamp : isStamp input.resultGeneratedAt.toList = true)
  (hotherId : isMeetingId other.meetingId.toList = true)
  (hotherStamp : isStamp other.resultGeneratedAt.toList = true)
include hid hstamp hotherId hotherStamp

/-- On the local store a call keeps those of other meetings from being recorded whose ids its own id begins with. -/
theorem local_after {store t : AuthStore}
    (h : Local.Quota.recordFinalizeUsage now newId userId input store = .ok (u, t))
    (hnew : Local.Quota.finalizeUsageRecorded store userId input = false)
    (hother : Local.Quota.finalizeUsageRecorded store userId other = false)
    (hreservation : OtherReservation other (Local.Quota.findRecordedReservation store userId input)) :
    Local.Quota.finalizeUsageRecorded t userId other = false ↔
      ¬ (other.meetingId.toList <+: input.meetingId.toList ∧ other.resultGeneratedAt = input.resultGeneratedAt) := by
  obtain ⟨event, hevents, hadds⟩ := local_adds h hnew
  have hnote := hadds.noteOf hid hstamp
  have happend : Local.Quota.finalizeUsageRecorded t userId other =
      (Local.Quota.finalizeUsageRecorded store userId other ||
        Local.Quota.finalizeUsageRecorded { usageEvents := [event] } userId other) := by
    unfold Local.Quota.finalizeUsageRecorded
    rw [hevents, List.any_append]
  have hevent : Local.Quota.finalizeUsageRecorded { usageEvents := [event] } userId other = true ↔
      (SameReservation other event ∨
        textIncludes event.note ("meeting:" ++ other.meetingId) = true ∧ resultFound other event.note = true) := by
    unfold Local.Quota.finalizeUsageRecorded SameReservation resultFound
    rw [List.any_cons, List.any_nil, Bool.or_false, hadds.ofUser.1, hadds.ofUser.2]
    simp only [beq_self_eq_true, Bool.true_and, Bool.or_eq_true, Bool.and_eq_true, beq_iff_eq]
  rw [happend, hother, Bool.false_or, ← Bool.not_eq_true, hevent, local_note_iff hotherId hnote,
    resultFound_iff hotherStamp hnote, sameResult_noteOfCall, or_iff_right (hadds.not_sameReservation hreservation)]
  rfl

/-- In the database an underscore of the other id stands for any character of the note. -/
theorem postgres_after {db t : Database}
    (h : Postgres.Quota.recordFinalizeUsage now newId userId input db = .ok (u, t))
    (hnew : Postgres.Quota.finalizeUsageRecorded db.toTables userId input = false)
    (hother : Postgres.Quota.finalizeUsageRecorded db.toTables userId other = false)
    (hreservation : OtherReservation other (Postgres.Quota.selectRecordedReservation db.toTables userId input)) :
    Postgres.Quota.finalizeUsageRecorded t.toTables userId other = false ↔
      ¬ (Matches other.meetingId.toList (input.meetingId.toList ++
          (noteOfCall input (Postgres.Quota.selectRecordedReservation db.toTables userId input)).tail) ∧
        other.resultGeneratedAt = input.resultGeneratedAt) := by
  obtain ⟨event, hevents, hadds⟩ := postgres_adds h hnew
  have hnote := hadds.noteOf hid hstamp
  have happend : Postgres.Quota.finalizeUsageRecorded t.toTables userId other =
      (Postgres.Quota.finalizeUsageRecorded db.toTables userId other ||
        Postgres.Quota.finalizeUsageRecorded { usageEvents := [event] } userId other) := by
    unfold Postgres.Quota.finalizeUsageRecorded
    rw [hevents, List.filter_append, List.any_append]
  have hevent : Postgres.Quota.finalizeUsageRecorded { usageEvents := [event] } userId other = true ↔
      (SameReservation other event ∨
        Postgres.Quota.noteLike event.note other.meetingId = true ∧ resultFound other event.note = true) := by
    unfold Postgres.Quota.finalizeUsageRecorded SameReservation resultFound
    rw [List.any_filter, List.any_cons, List.any_nil, Bool.or_false, hadds.ofUser.1, hadds.ofUser.2]
    simp only [beq_self_eq_true, Bool.true_and, Bool.or_eq_true, Bool.and_eq_true, beq_iff_eq]
    rw [or_assoc, ← or_and_left]
  rw [happend, hother, Bool.false_or, ← Bool.not_eq_true, hevent, postgres_note_iff hotherId hnote,
    resultFound_iff hotherStamp hnote, sameResult_noteOfCall, or_iff_right (hadds.not_sameReservation hreservation)]
  rfl

omit hotherId hotherStamp in
/-- The calls themselves keep the notes as `Written` says. -/
theorem local_written {store t : AuthStore}
    (h : Local.Quota.recordFinalizeUsage now newId userId input store = .ok (u, t))
    (hwritten : Written store.usageEvents) : Written t.usageEvents := by
  by_cases hnew : Local.Quota.finalizeUsageRecorded store userId input = true
  · obtain ⟨user, -, h⟩ := bind_eq_ok.mp h
    rw [if_pos hnew] at h
    cases h
    exact hwritten
  · obtain ⟨event, hevents, hadds⟩ := local_adds h (Bool.not_eq_true _ ▸ hnew)
    exact hevents ▸ hadds.written hid hstamp hwritten

omit hotherId hotherStamp in
theorem postgres_written {db t : Database}
    (h : Postgres.Quota.recordFinalizeUsage now newId userId input db = .ok (u, t))
    (hwritten : Written db.usageEvents) : Written t.usageEvents := by
  by_cases hnew : Postgres.Quota.finalizeUsageRecorded db.toTables userId input = true
  · obtain ⟨t', h, ht⟩ := Postgres.Calls.postgresTransaction_ok h
    obtain ⟨user, -, h⟩ := bind_eq_ok.mp h
    rw [if_pos hnew] at h
    cases h
    rw [ht]
    exact hwritten
  · obtain ⟨event, hevents, hadds⟩ := postgres_adds h (Bool.not_eq_true _ ▸ hnew)
    exact hevents ▸ hadds.written hid hstamp hwritten

end TwoCalls

/-! ### When the keys are told apart -/

/-- An event found by the longer or matching id counts only where an event of the call's own keys does too. -/
theorem exactly_iff {events : List UsageEventRecord} {found : Prop} {Other : UsageEventRecord → Prop}
    (hfound : found ↔ ∃ event ∈ events, OfUser userId event ∧ (Keyed input event ∨ Other event)) :
    (found ↔ Recorded events userId input) ↔
      ((∃ event ∈ events, OfUser userId event ∧ Other event) → Recorded events userId input) := by
  constructor
  · rintro h ⟨event, hevent, huser, hother⟩
    exact h.mp (hfound.mpr ⟨event, hevent, huser, Or.inr hother⟩)
  · intro h
    refine hfound.trans ⟨?_, ?_⟩
    · rintro ⟨event, hevent, huser, hkeyed | hother⟩
      · exact ⟨event, hevent, huser, hkeyed⟩
      · exact h ⟨event, hevent, huser, hother⟩
    · rintro ⟨event, hevent, huser, hkeyed⟩
      exact ⟨event, hevent, huser, Or.inl hkeyed⟩

/-- Of the notes found, those of the call's own meeting are the keyed ones. -/
theorem found_iff {P : UsageNote → Prop} (hown : ∀ n, n.meetingId = input.meetingId.toList → P n) :
    (SameReservation input event ∨ ∃ n, NoteOf event n ∧ SameResult input n ∧ P n) ↔
      (Keyed input event ∨
        ∃ n, NoteOf event n ∧ SameResult input n ∧ n.meetingId ≠ input.meetingId.toList ∧ P n) := by
  constructor
  · rintro (hreservation | ⟨n, hn, hresult, hp⟩)
    · exact Or.inl (Or.inl hreservation)
    · by_cases hsame : n.meetingId = input.meetingId.toList
      · exact Or.inl (Or.inr ⟨n, hn, hsame, hresult⟩)
      · exact Or.inr ⟨n, hn, hresult, hsame, hp⟩
  · rintro ((hreservation | ⟨n, hn, hsame, hresult⟩) | ⟨n, hn, hresult, -, hp⟩)
    · exact Or.inl hreservation
    · exact Or.inr ⟨n, hn, hresult, hown n hsame⟩
    · exact Or.inr ⟨n, hn, hresult, hp⟩

theorem meetingId_eq {n' : UsageNote} (h : NoteOf event n) (h' : NoteOf event n') : n.meetingId = n'.meetingId := by
  have hbegins : ∀ {a b : UsageNote}, NoteOf event a → NoteOf event b → a.meetingId <+: b.meetingId := by
    intro a b ha hb
    rw [← meeting_infix_iff hb.1 ha.1.meetingId, ← hb.2, ha.2, UsageNote.text_eq]
    exact ⟨opening, a.tail, by simp only [List.append_assoc]⟩
  exact (hbegins h h').eq_of_length_le (hbegins h' h).length_le

/-- **When a finalization counts as recorded.** By its keys, unless the user has an event of the same result, or
an old one, of a meeting whose id begins with the call's (in the database: matches it). -/
theorem usage_recorded_by_keys (hid : isMeetingId input.meetingId.toList = true)
    (hstamp : isStamp input.resultGeneratedAt.toList = true) :
    (∀ (store : AuthStore) (userId : UserId), Written store.usageEvents →
      ((Local.Quota.finalizeUsageRecorded store userId input = true ↔ Recorded store.usageEvents userId input) ↔
        ((∃ event ∈ store.usageEvents, OfUser userId event ∧ OfLongerId input event) →
          Recorded store.usageEvents userId input))) ∧
      (∀ (t : Tables) (userId : UserId), Written t.usageEvents →
        ((Postgres.Quota.finalizeUsageRecorded t userId input = true ↔ Recorded t.usageEvents userId input) ↔
          ((∃ event ∈ t.usageEvents, OfUser userId event ∧ OfMatchingId input event) →
            Recorded t.usageEvents userId input))) ∧
      (∀ other : RecordMeetingFinalizeUsageInput, isMeetingId other.meetingId.toList = true →
        isStamp other.resultGeneratedAt.toList = true → other.meetingId ≠ input.meetingId →
        (∀ store t now newId userId u,
          Local.Quota.recordFinalizeUsage now newId userId input store = .ok (u, t) →
          Local.Quota.finalizeUsageRecorded store userId input = false →
          Local.Quota.finalizeUsageRecorded store userId other = false →
          OtherReservation other (Local.Quota.findRecordedReservation store userId input) →
          (Local.Quota.finalizeUsageRecorded t userId other = false ↔
            ¬ (other.meetingId.toList <+: input.meetingId.toList ∧
              other.resultGeneratedAt = input.resultGeneratedAt))) ∧
        ∀ (db t : Database) now newId userId u,
          Postgres.Quota.recordFinalizeUsage now newId userId input db = .ok (u, t) →
          Postgres.Quota.finalizeUsageRecorded db.toTables userId input = false →
          Postgres.Quota.finalizeUsageRecorded db.toTables userId other = false →
          OtherReservation other (Postgres.Quota.selectRecordedReservation db.toTables userId input) →
          (Postgres.Quota.finalizeUsageRecorded t.toTables userId other = false ↔
            ¬ (Matches other.meetingId.toList (input.meetingId.toList ++
                (noteOfCall input (Postgres.Quota.selectRecordedReservation db.toTables userId input)).tail) ∧
              other.resultGeneratedAt = input.resultGeneratedAt))) ∧
      ∀ (minutes : ℤ) (meetingId : String) (route : MeetingProcessingRoute) (p c : ℕ),
        (∀ char ∈ meetingId.toList, Lib.JsText.isWhiteSpace char = false) → 0 < p →
        parseMeetingUsage minutes (buildMeetingUsageNote meetingId input.resultGeneratedAt route ⟨p, c⟩) =
          ⟨route, p, c⟩ := by
  refine ⟨fun store userId hwritten => ?_, fun t userId hwritten => ?_, fun other hotherId hotherStamp _ => ⟨?_, ?_⟩,
    fun minutes meetingId route p c hwhite hp => parseMeetingUsage_note hwhite hstamp minutes hp c⟩
  · refine exactly_iff ((local_recorded_iff hid hstamp hwritten).trans ?_)
    refine exists_congr fun event => and_congr_right fun _ => and_congr_right fun _ => ?_
    exact found_iff fun n hsame => hsame ▸ List.prefix_rfl
  · refine exactly_iff ((postgres_recorded_iff hid hstamp hwritten).trans ?_)
    refine exists_congr fun event => and_congr_right fun _ => and_congr_right fun _ => ?_
    exact found_iff fun n hsame => matches_of_prefix (hsame ▸ List.prefix_append _ _)
  · intro store t now newId userId u h hnew hother hreservation
    exact local_after hid hstamp hotherId hotherStamp h hnew hother hreservation
  · intro db t now newId userId u h hnew hother hreservation
    exact postgres_after hid hstamp hotherId hotherStamp h hnew hother hreservation

def callOf (meetingId : String) : RecordMeetingFinalizeUsageInput where
  meetingId := meetingId
  durationMs := 60000
  route := .byok
  resultGeneratedAt := "2026-07-31T00:00:00.000Z"

def eventOf (meetingId : String) : UsageEventRecord where
  id := "e"
  userId := "u"
  type := .meetingFinalize
  minutes := 0
  note := buildMeetingUsageNote meetingId "2026-07-31T00:00:00.000Z" .byok ⟨1, 0⟩

theorem isStamp_callOf (meetingId : String) : isStamp (callOf meetingId).resultGeneratedAt.toList = true := by
  rw [callOf, String.toList_ofList]
  decide

theorem isMeetingId_one : isMeetingId (callOf "meeting_1").meetingId.toList = true := by
  rw [callOf, String.toList_ofList]
  decide

theorem noteOf_eventOf (hid : isMeetingId meetingId.toList = true) :
    NoteOf (eventOf meetingId)
      ⟨meetingId.toList, some "2026-07-31T00:00:00.000Z".toList, figures .byok ⟨1, 0⟩⟩ :=
  ⟨wellFormed_note hid (isStamp_callOf meetingId) _ _, toList_note_eq_text _ _ _ _⟩

theorem written_eventOf (hid : isMeetingId meetingId.toList = true) : Written [eventOf meetingId] := by
  intro event hevent _
  rw [List.mem_singleton] at hevent
  exact Or.inl ⟨_, hevent ▸ noteOf_eventOf hid⟩

def oneUser : AuthStore where
  users := ⟨[{ id := "u" }], by decide⟩

/-- A meeting that is recorded, and found so on both backends; another one is not found after its call, and the minutes
of its note are read back. -/
theorem usage_recorded_by_keys_same :
    (Local.Quota.finalizeUsageRecorded { usageEvents := [eventOf "meeting_1"] } "u" (callOf "meeting_1") = true ↔
        Recorded [eventOf "meeting_1"] "u" (callOf "meeting_1")) ∧
      (Postgres.Quota.finalizeUsageRecorded { usageEvents := [eventOf "meeting_1"] } "u" (callOf "meeting_1") = true ↔
        Recorded [eventOf "meeting_1"] "u" (callOf "meeting_1")) ∧
      (∃ t, Local.Quota.recordFinalizeUsage 0 "e" "u" (callOf "meeting_1") oneUser = .ok ((), t) ∧
        Local.Quota.finalizeUsageRecorded t "u" (callOf "meeting_2") = false) ∧
      parseMeetingUsage 0 (eventOf "meeting_1").note = ⟨.byok, 1, 0⟩ := by
  obtain ⟨hlocal, hpostgres, hafter, hnote⟩ := @usage_recorded_by_keys (callOf "meeting_1") isMeetingId_one (isStamp_callOf _)
  have hrecorded : Recorded [eventOf "meeting_1"] "u" (callOf "meeting_1") :=
    ⟨_, List.mem_singleton_self _, ⟨rfl, rfl⟩, Or.inr ⟨_, noteOf_eventOf isMeetingId_one, rfl, Or.inl rfl⟩⟩
  have hok : (Local.Quota.recordFinalizeUsage 0 "e" "u" (callOf "meeting_1") oneUser).isOk = true := by decide
  have hother : isMeetingId "meeting_2".toList = true := by
    rw [String.toList_ofList]
    decide
  have hwhite : ("meeting_1".toList.all fun c => !Lib.JsText.isWhiteSpace c) = true := by
    rw [String.toList_ofList]
    decide
  refine ⟨(hlocal _ "u" (written_eventOf isMeetingId_one)).mpr fun _ => hrecorded,
    (hpostgres _ "u" (written_eventOf isMeetingId_one)).mpr fun _ => hrecorded, ?_,
    hnote 0 "meeting_1" .byok 1 0 (fun c hc => by simpa using List.all_eq_true.mp hwhite c hc) (by decide)⟩
  cases hcall : Local.Quota.recordFinalizeUsage 0 "e" "u" (callOf "meeting_1") oneUser with
  | error e =>
    rw [hcall] at hok
    cases hok
  | ok r =>
    refine ⟨r.2, rfl, ((hafter (callOf "meeting_2") hother (isStamp_callOf _) (by decide)).1 _ _ _ _ _ _ hcall
      rfl rfl ?_).mpr fun h => ?_⟩
    · intro reservation hreservation
      cases hreservation
    · have hbegins := h.1
      rw [callOf, callOf, String.toList_ofList, String.toList_ofList] at hbegins
      exact absurd hbegins (by decide)

theorem not_recorded_eventOf {recorded : String} (hid : isMeetingId recorded.toList = true)
    (hne : recorded.toList ≠ meetingId.toList) : ¬ Recorded [eventOf recorded] "u" (callOf meetingId) := by
  rintro ⟨event, hevent, -, ⟨hsome, -⟩ | ⟨n, hn, hsame, -⟩⟩
  · cases hsome
  · rw [List.mem_singleton] at hevent
    subst hevent
    exact hne ((meetingId_eq (noteOf_eventOf hid) hn).trans hsame)

/-- The event of another meeting with a longer id, or of one that an underscore matches, counts as the meeting's. -/
theorem usage_recorded_of_other_meeting :
    (Written [eventOf "meeting_12"] ∧
      Local.Quota.finalizeUsageRecorded { usageEvents := [eventOf "meeting_12"] } "u" (callOf "meeting_1") = true ∧
      ¬ Recorded [eventOf "meeting_12"] "u" (callOf "meeting_1")) ∧
    Written [eventOf "meetingA1"] ∧
      Postgres.Quota.finalizeUsageRecorded { usageEvents := [eventOf "meetingA1"] } "u" (callOf "meeting_1") = true ∧
      ¬ Recorded [eventOf "meetingA1"] "u" (callOf "meeting_1") := by
  have hlonger : isMeetingId "meeting_12".toList = true := by
    rw [String.toList_ofList]
    decide
  have hmatching : isMeetingId "meetingA1".toList = true := by
    rw [String.toList_ofList]
    decide
  refine ⟨⟨written_eventOf hlonger, ?_, not_recorded_eventOf hlonger ?_⟩, written_eventOf hmatching, ?_,
    not_recorded_eventOf hmatching ?_⟩
  · refine (local_recorded_iff isMeetingId_one (isStamp_callOf _) (written_eventOf hlonger)).mpr
      ⟨_, List.mem_singleton_self _, ⟨rfl, rfl⟩, Or.inr ⟨_, noteOf_eventOf hlonger, Or.inl rfl, ?_⟩⟩
    rw [callOf, String.toList_ofList, String.toList_ofList]
    decide
  · rw [String.toList_ofList, String.toList_ofList]
    decide
  · refine (postgres_recorded_iff isMeetingId_one (isStamp_callOf _) (written_eventOf hmatching)).mpr
      ⟨_, List.mem_singleton_self _, ⟨rfl, rfl⟩, Or.inr ⟨_, noteOf_eventOf hmatching, Or.inl rfl, ?_⟩⟩
    rw [callOf, String.toList_ofList, String.toList_ofList]
    simp [Matches]
  · rw [String.toList_ofList, String.toList_ofList]
    decide

end OwnMinutes.Backends.UsageRecording
