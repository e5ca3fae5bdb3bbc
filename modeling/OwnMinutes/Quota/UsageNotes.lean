import OwnMinutes.Lib.JsText
import OwnMinutes.Lib.Occurrences
import OwnMinutes.Auth.QuotaTypes

/-! # The notes of usage events

A finalized meeting is recorded in one line of text: the meeting, the result and the figures, each behind a key.
`recordMeetingFinalizeUsage` searches that line, `parseMeetingUsage` reads the figures back. -/

namespace OwnMinutes.Quota.UsageNotes

open OwnMinutes.Lib.JsText OwnMinutes.Lib.Occurrences OwnMinutes.Auth.ProcessingRoute
open OwnMinutes.Auth.QuotaTypes

abbrev Text := List Char

/-! ### Reading the figures -/

def digitValue (text : Text) : ℕ := Nat.ofDigitChars 10 text 0

/-- What stands behind the key in the first word that has the key and an accepted value. As the values have no
white space, this is `note.match(/(?:^|\s)key(value)(?:\s|$)/)?.[1]`. -/
def matchWord (key : Text) (accept : Text → Bool) (note : Text) : Option Text :=
  (note.splitOnP isWhiteSpace).findSome? fun word =>
    if key.isPrefixOf word && accept (word.drop key.length) then some (word.drop key.length) else none

/-- `byok|hybrid|official_quota`. -/
def routeOf (text : Text) : Option MeetingProcessingRoute :=
  [MeetingProcessingRoute.byok, .hybrid, .officialQuota].find? fun route => route.text.toList = text

/-- `\d+`. -/
def isDigits (text : Text) : Bool := !text.isEmpty && text.all fun c => c.isDigit

structure ParsedUsage where
  processingRoute : MeetingProcessingRoute
  processedMinutes : ℤ
  officialMinutesCharged : ℤ
  deriving DecidableEq, Repr

def parseMeetingUsage (minutes : ℤ) (note : String) : ParsedUsage :=
  let route := (matchWord "route:".toList (fun text => (routeOf text).isSome) note.toList).bind routeOf
  let processed := (matchWord "processed:".toList isDigits note.toList).map digitValue
  let charged := (matchWord "charged:".toList isDigits note.toList).map digitValue
  { processingRoute := route.getD .officialQuota
    processedMinutes :=
      match processed with
      | some n => if 0 < n then (n : ℤ) else max 0 minutes
      | none => max 0 minutes
    officialMinutesCharged :=
      match charged with
      | some n => (n : ℤ)
      | none => max 0 minutes }

def decimal (n : ℕ) : Text := Nat.toDigits 10 n

variable {c : Char}

theorem isDigit_decimal {n : ℕ} (h : c ∈ decimal n) : c.isDigit = true :=
  Nat.isDigit_of_mem_toDigits (by omega) (by omega) h

theorem isWhiteSpace_of_isDigit (h : c.isDigit = true) : isWhiteSpace c = false := by
  have hc : 48 ≤ c.val.toNat ∧ c.val.toNat ≤ 57 := by
    simpa [Char.isDigit, UInt32.le_iff_toNat_le] using h
  exact isWhiteSpace_of_ascii (by omega) (by omega)

theorem decimal_ne_nil (n : ℕ) : decimal n ≠ [] := by
  intro h
  have := congrArg List.length h
  simp [decimal] at this

theorem isDigits_decimal (n : ℕ) : isDigits (decimal n) = true := by
  have hne := decimal_ne_nil n
  simp only [isDigits, Bool.and_eq_true, Bool.not_eq_true', List.isEmpty_eq_false_iff, List.all_eq_true]
  exact ⟨hne, fun c hc => isDigit_decimal hc⟩

theorem digitValue_decimal (n : ℕ) : digitValue (decimal n) = n := by
  simp [digitValue, decimal]

theorem routeOf_text (route : MeetingProcessingRoute) : routeOf route.text.toList = some route := by
  cases route <;> decide

/-! ### The parts of a note -/

/-- `/^[a-zA-Z0-9_-]{1,160}$/`. -/
def isMeetingId (text : Text) : Bool :=
  1 ≤ text.length && text.length ≤ 160 && text.all fun c => c.isAlphanum || c == '_' || c == '-'

/-- The texts of `toISOString` in the years 0 to 9999. -/
def isStamp (text : Text) : Bool :=
  text.length = 24 && text.all fun c => c.isDigit || c == '-' || c == ':' || c == '.' || c == 'T' || c == 'Z'

def opening : Text := "Finalized ".toList

def usageKey : Text := "meeting:".toList

def resultKey : Text := "result:".toList

/-- A note of an old event has no result. -/
structure UsageNote where
  meetingId : Text
  result : Option Text
  rest : Text
  deriving DecidableEq, Repr

namespace UsageNote

variable (n : UsageNote)

def tail : Text :=
  match n.result with
  | some result => ' ' :: (resultKey ++ (result ++ n.rest))
  | none => n.rest

def text : Text := opening ++ (usageKey ++ (n.meetingId ++ n.tail))

theorem text_eq : n.text = opening ++ (usageKey ++ (n.meetingId ++ n.tail)) := rfl

structure WellFormed : Prop where
  meetingId : isMeetingId n.meetingId = true
  result : ∀ result, n.result = some result → isStamp result = true
  rest : n.rest = [] ∨ ∃ more, n.rest = ' ' :: more
  noMeeting : ¬ usageKey <:+: n.rest
  noResult : ¬ resultKey <:+: n.rest

end UsageNote

theorem not_mem_meetingId {id : Text} (h : isMeetingId id = true)
    (hc : (c.isAlphanum || c == '_' || c == '-') = false) : c ∉ id := by
  intro hmem
  simp only [isMeetingId, Bool.and_eq_true, List.all_eq_true] at h
  rw [h.2 c hmem] at hc
  cases hc

theorem not_mem_stamp {stamp : Text} (h : isStamp stamp = true)
    (hc : (c.isDigit || c == '-' || c == ':' || c == '.' || c == 'T' || c == 'Z') = false) : c ∉ stamp := by
  intro hmem
  simp only [isStamp, Bool.and_eq_true, List.all_eq_true] at h
  rw [h.2 c hmem] at hc
  cases hc

theorem isWhiteSpace_stamp {stamp : Text} (h : isStamp stamp = true) : ∀ c ∈ stamp, isWhiteSpace c = false := by
  intro c hc
  simp only [isStamp, Bool.and_eq_true, List.all_eq_true, Bool.or_eq_true, beq_iff_eq] at h
  rcases h.2 c hc with ((((hdigit | rfl) | rfl) | rfl) | rfl) | rfl
  · exact isWhiteSpace_of_isDigit hdigit
  all_goals decide

theorem length_stamp {stamp : Text} (h : isStamp stamp = true) : stamp.length = 24 := by
  simp only [isStamp, Bool.and_eq_true, decide_eq_true_eq] at h
  exact h.1

theorem not_infix_of_not_mem {key text : Text} (hkey : c ∈ key) (htext : c ∉ text) : ¬ key <:+: text :=
  fun h => htext (h.subset hkey)

section WellFormed

variable {n : UsageNote} (h : n.WellFormed)
include h

theorem tail_eq : n.tail = [] ∨ ∃ more, n.tail = ' ' :: more := by
  unfold UsageNote.tail
  cases n.result with
  | some result => exact Or.inr ⟨_, rfl⟩
  | none => exact h.rest

theorem infix_rest {key left : Text} (hsep : ' ' ∉ key) (hrest : ¬ key <:+: n.rest) :
    key <:+: left ++ n.rest ↔ key <:+: left := by
  rcases h.rest with hnil | ⟨more, hmore⟩
  · rw [hnil, List.append_nil]
  · rw [hmore, infix_sep hsep]
    constructor
    · rintro (hleft | hinside)
      · exact hleft
      · exact absurd (hmore ▸ List.infix_cons hinside) hrest
    · exact Or.inl

theorem not_meeting_after : ¬ usageKey <:+: n.meetingId ++ n.tail := by
  have hid : ¬ usageKey <:+: n.meetingId :=
    not_infix_of_not_mem (c := ':') (by decide) (not_mem_meetingId h.meetingId (by decide))
  unfold UsageNote.tail
  cases hresult : n.result with
  | none =>
    rw [infix_rest h (by decide) h.noMeeting]
    exact hid
  | some result =>
    rw [infix_sep (by decide), ← List.append_assoc, infix_rest h (by decide) h.noMeeting]
    have hstamp := not_mem_stamp (h.result result hresult) (c := 'm') (by decide)
    rintro (hinside | hinside)
    · exact hid hinside
    · refine not_infix_of_not_mem (c := 'm') (by decide) ?_ hinside
      rw [List.mem_append, not_or]
      exact ⟨by decide, hstamp⟩

/-- The key of the meeting occurs once. -/
theorem once_meeting : Once usageKey opening (n.meetingId ++ n.tail) :=
  @once_sep _ ' ' usageKey "Finalized".toList _ (by decide) (by decide)
    (once_front (c := 'm') (p := "eeting:".toList) (by decide) (not_meeting_after h))

/-- A meeting is found in the notes of the meetings whose ids begin with its id. -/
theorem meeting_infix_iff {id : Text} (hid : isMeetingId id = true) :
    usageKey ++ id <:+: n.text ↔ id <+: n.meetingId := by
  rw [UsageNote.text_eq, infix_iff_of_once (once_meeting h)]
  have hspace : ' ' ∉ id := not_mem_meetingId hid (by decide)
  constructor
  · intro hbegins
    rcases tail_eq h with hnil | ⟨more, hmore⟩
    · rwa [hnil, List.append_nil] at hbegins
    · obtain ⟨t, ht⟩ := hbegins
      rw [hmore] at ht
      rcases List.append_eq_append_iff.mp ht with ⟨u, hu, -⟩ | ⟨u, hu, hrest⟩
      · exact ⟨u, hu.symm⟩
      · rcases u with _ | ⟨d, u⟩
        · rw [hu, List.append_nil]
        · refine absurd ?_ hspace
          have hd : ' ' = d := (List.cons.inj hrest).1
          rw [hu, hd]
          simp
  · exact fun hbegins => hbegins.trans (List.prefix_append _ _)

theorem not_result_before : ¬ resultKey <:+: opening ++ usageKey ++ n.meetingId := by
  change ¬ 'r' :: "esult:".toList <:+: opening ++ usageKey ++ n.meetingId
  rw [infix_skip (by decide)]
  exact not_infix_of_not_mem (c := ':') (by decide) (not_mem_meetingId h.meetingId (by decide))

omit h in
theorem text_of_result {result : Text} (hresult : n.result = some result) :
    n.text = (opening ++ usageKey ++ n.meetingId ++ [' ']) ++ (resultKey ++ (result ++ n.rest)) := by
  rw [UsageNote.text_eq, UsageNote.tail, hresult]
  simp only [List.append_assoc, List.cons_append, List.nil_append]

theorem once_result {result : Text} (hresult : n.result = some result) :
    Once resultKey (opening ++ usageKey ++ n.meetingId ++ [' ']) (result ++ n.rest) := by
  refine once_sep (by decide) (not_result_before h) (once_front (c := 'r') (by decide) ?_)
  change ¬ resultKey <:+: result ++ n.rest
  rw [infix_rest h (by decide) h.noResult]
  exact not_infix_of_not_mem (c := 'r') (by decide) (not_mem_stamp (h.result result hresult) (by decide))

theorem result_infix_none (hresult : n.result = none) (stamp : Text) : ¬ resultKey ++ stamp <:+: n.text := by
  have hkey : ¬ resultKey <:+: n.text := by
    have htext : n.text = (opening ++ usageKey ++ n.meetingId) ++ n.rest := by
      rw [UsageNote.text_eq, UsageNote.tail, hresult]
      simp only [List.append_assoc]
    rw [htext, infix_rest h (by decide) h.noResult]
    exact not_result_before h
  exact fun hinside => hkey ((List.prefix_append _ _).isInfix.trans hinside)

/-- A result is found in the notes of that result. -/
theorem result_infix_iff {stamp : Text} (hstamp : isStamp stamp = true) :
    resultKey ++ stamp <:+: n.text ↔ n.result = some stamp := by
  cases hresult : n.result with
  | none => simp [result_infix_none h hresult stamp]
  | some result =>
    have hlength := length_stamp (h.result result hresult)
    rw [text_of_result hresult, infix_iff_of_once (once_result h hresult), Option.some.injEq]
    constructor
    · intro hbegins
      have heq := List.prefix_iff_eq_take.mp hbegins
      rw [length_stamp hstamp, ← hlength, List.take_left] at heq
      exact heq.symm
    · rintro rfl
      exact List.prefix_append _ _

theorem result_key_iff : resultKey <:+: n.text ↔ n.result ≠ none := by
  cases hresult : n.result with
  | none =>
    have := result_infix_none h hresult []
    rw [List.append_nil] at this
    simp [this]
  | some result =>
    rw [text_of_result hresult]
    simp only [ne_eq, reduceCtorEq, not_false_eq_true, iff_true]
    exact ⟨_, result ++ n.rest, by rw [List.append_assoc]⟩

end WellFormed

/-! ### The notes that are written -/

theorem toList_int (z : ℤ) : (toString z).toList = (if z < 0 then ['-'] else []) ++ decimal z.natAbs := by
  cases z with
  | ofNat n =>
    have hn : ¬ Int.ofNat n < 0 := not_lt.mpr (Int.natCast_nonneg n)
    rw [if_neg hn, List.nil_append]
    exact Nat.toList_repr
  | negSucc n =>
    rw [if_pos (Int.negSucc_lt_zero n)]
    change ("-" ++ Nat.repr (n + 1)).toList = _
    rw [String.toList_append, Nat.toList_repr]
    rfl

theorem not_mem_int {z : ℤ} (hc : c.isDigit = false) (hminus : c ≠ '-') : c ∉ (toString z).toList := by
  rw [toList_int, List.mem_append, not_or]
  refine ⟨?_, fun h => ?_⟩
  · split_ifs
    · simpa using hminus
    · exact List.not_mem_nil
  · rw [isDigit_decimal h] at hc
    cases hc

def routeWord (route : MeetingProcessingRoute) : Text := "route:".toList ++ route.text.toList

def processedWord (usage : MeetingUsage) : Text := "processed:".toList ++ (toString usage.processedMinutes).toList

def chargedWord (usage : MeetingUsage) : Text := "charged:".toList ++ (toString usage.officialMinutesCharged).toList

/-- The words after the result. -/
def figures (route : MeetingProcessingRoute) (usage : MeetingUsage) : Text :=
  ' ' :: (routeWord route ++ ' ' :: (processedWord usage ++ ' ' :: chargedWord usage))

theorem toList_note (meetingId resultGeneratedAt : String) (route : MeetingProcessingRoute) (usage : MeetingUsage) :
    (buildMeetingUsageNote meetingId resultGeneratedAt route usage).toList =
      "Finalized".toList ++ ' ' :: ((usageKey ++ meetingId.toList) ++ ' ' ::
        ((resultKey ++ resultGeneratedAt.toList) ++ figures route usage)) := by
  unfold buildMeetingUsageNote figures routeWord processedWord chargedWord usageKey resultKey
  simp only [String.toList_append, List.append_assoc]
  rfl

theorem toList_note_eq_text (meetingId resultGeneratedAt : String) (route : MeetingProcessingRoute)
    (usage : MeetingUsage) :
    (buildMeetingUsageNote meetingId resultGeneratedAt route usage).toList =
      UsageNote.text ⟨meetingId.toList, some resultGeneratedAt.toList, figures route usage⟩ := by
  rw [toList_note, UsageNote.text_eq, UsageNote.tail]
  simp only [List.append_assoc]
  rfl

theorem not_mem_processed (hword : c ∉ "processed:".toList) (hc : c.isDigit = false) (hminus : c ≠ '-')
    (usage : MeetingUsage) : c ∉ processedWord usage := by
  unfold processedWord
  rw [List.mem_append, not_or]
  exact ⟨hword, not_mem_int hc hminus⟩

theorem not_mem_charged (hword : c ∉ "charged:".toList) (hc : c.isDigit = false) (hminus : c ≠ '-')
    (usage : MeetingUsage) : c ∉ chargedWord usage := by
  unfold chargedWord
  rw [List.mem_append, not_or]
  exact ⟨hword, not_mem_int hc hminus⟩

theorem not_mem_figures (hroute : ∀ route, c ∉ routeWord route) (hprocessed : c ∉ "processed:".toList)
    (hcharged : c ∉ "charged:".toList) (hc : c.isDigit = false) (hminus : c ≠ '-') (hspace : c ≠ ' ')
    (route : MeetingProcessingRoute) (usage : MeetingUsage) : c ∉ figures route usage := by
  unfold figures
  rw [List.mem_cons, List.mem_append, List.mem_cons, List.mem_append, List.mem_cons]
  rintro (h | h | h | h | h | h)
  · exact hspace h
  · exact hroute route h
  · exact hspace h
  · exact not_mem_processed hprocessed hc hminus usage h
  · exact hspace h
  · exact not_mem_charged hcharged hc hminus usage h

theorem noMeeting_figures (route : MeetingProcessingRoute) (usage : MeetingUsage) : 'm' ∉ figures route usage :=
  not_mem_figures (fun route => by cases route <;> decide) (by decide) (by decide) (by decide) (by decide) (by decide)
    route usage

theorem noResult_figures (route : MeetingProcessingRoute) (usage : MeetingUsage) :
    ¬ resultKey <:+: figures route usage := by
  have hroute : ¬ resultKey <:+: routeWord route :=
    not_infix_of_not_mem (c := 's') (by decide) (by cases route <;> decide)
  have hprocessed := not_mem_processed (c := 'l') (by decide) (by decide) (by decide) usage
  have hcharged := not_mem_charged (c := 'l') (by decide) (by decide) (by decide) usage
  have hspace : ' ' ∉ resultKey := by decide
  unfold figures
  rw [← List.nil_append (' ' :: _), infix_sep hspace, infix_sep hspace, infix_sep hspace]
  rintro (h | h | h | h)
  · exact absurd h (by decide)
  · exact hroute h
  · exact not_infix_of_not_mem (by decide) hprocessed h
  · exact not_infix_of_not_mem (by decide) hcharged h

/-- The notes that `buildMeetingUsageNote` writes have the parts that they were given. -/
theorem wellFormed_note {meetingId resultGeneratedAt : Text} (hid : isMeetingId meetingId = true)
    (hstamp : isStamp resultGeneratedAt = true) (route : MeetingProcessingRoute) (usage : MeetingUsage) :
    UsageNote.WellFormed ⟨meetingId, some resultGeneratedAt, figures route usage⟩ where
  meetingId := hid
  result := fun result hresult => by
    cases hresult
    exact hstamp
  rest := Or.inr ⟨_, rfl⟩
  noMeeting := not_infix_of_not_mem (c := 'm') (by decide) (noMeeting_figures route usage)
  noResult := noResult_figures route usage

/-! ### The figures of a note that was written -/

section RoundTrip

variable {meetingId resultGeneratedAt : String} {route : MeetingProcessingRoute}
  (hid : ∀ c ∈ meetingId.toList, isWhiteSpace c = false) (hstamp : isStamp resultGeneratedAt.toList = true)
include hid hstamp

theorem words_note (p c : ℕ) :
    (buildMeetingUsageNote meetingId resultGeneratedAt route ⟨p, c⟩).toList.splitOnP isWhiteSpace =
      ["Finalized".toList, usageKey ++ meetingId.toList, resultKey ++ resultGeneratedAt.toList, routeWord route,
        "processed:".toList ++ decimal p, "charged:".toList ++ decimal c] := by
  have hspace : isWhiteSpace ' ' = true := by decide
  have hword : ∀ {l : Text}, (l.all fun c => !isWhiteSpace c) = true → ∀ c ∈ l, isWhiteSpace c = false :=
    fun h c hc => by simpa using List.all_eq_true.mp h c hc
  have happend : ∀ {l r : Text}, (∀ c ∈ l, isWhiteSpace c = false) → (∀ c ∈ r, isWhiteSpace c = false) →
      ∀ c ∈ l ++ r, isWhiteSpace c = false := by
    intro l r hl hr c hc
    rcases List.mem_append.mp hc with hc | hc
    · exact hl c hc
    · exact hr c hc
  have hdigits : ∀ n, ∀ c ∈ decimal n, isWhiteSpace c = false :=
    fun n c hc => isWhiteSpace_of_isDigit (isDigit_decimal hc)
  have hresult : ∀ c ∈ resultGeneratedAt.toList, isWhiteSpace c = false := isWhiteSpace_stamp hstamp
  have hfigures : figures route ⟨p, c⟩ =
      ' ' :: (routeWord route ++ ' ' :: (("processed:".toList ++ decimal p) ++ ' ' :: ("charged:".toList ++ decimal c))) := by
    unfold figures processedWord chargedWord
    rw [toList_int, toList_int]
    rfl
  rw [toList_note, hfigures, List.splitOnP_append_cons_of_forall_mem (hword (by decide)) ' ' hspace,
    List.splitOnP_append_cons_of_forall_mem (happend (hword (by decide)) hid) ' ' hspace,
    List.splitOnP_append_cons_of_forall_mem (happend (hword (by decide)) hresult) ' ' hspace,
    List.splitOnP_append_cons_of_forall_mem (hword (by cases route <;> decide)) ' ' hspace,
    List.splitOnP_append_cons_of_forall_mem (happend (hword (by decide)) (hdigits p)) ' ' hspace,
    List.splitOnP_eq_singleton (happend (hword (by decide)) (hdigits c))]

/-- **What is read back of a note.** -/
theorem parseMeetingUsage_note (minutes : ℤ) {p : ℕ} (hp : 0 < p) (c : ℕ) :
    parseMeetingUsage minutes (buildMeetingUsageNote meetingId resultGeneratedAt route ⟨p, c⟩) = ⟨route, p, c⟩ := by
  have hroute : matchWord "route:".toList (fun text => (routeOf text).isSome)
      (buildMeetingUsageNote meetingId resultGeneratedAt route ⟨p, c⟩).toList = some route.text.toList := by
    unfold matchWord
    rw [words_note hid hstamp]
    unfold usageKey resultKey routeWord
    simp [routeOf_text]
  have hprocessed : matchWord "processed:".toList isDigits
      (buildMeetingUsageNote meetingId resultGeneratedAt route ⟨p, c⟩).toList = some (decimal p) := by
    unfold matchWord
    rw [words_note hid hstamp]
    unfold usageKey resultKey routeWord
    simp [isDigits_decimal]
  have hcharged : matchWord "charged:".toList isDigits
      (buildMeetingUsageNote meetingId resultGeneratedAt route ⟨p, c⟩).toList = some (decimal c) := by
    unfold matchWord
    rw [words_note hid hstamp]
    unfold usageKey resultKey routeWord
    simp [isDigits_decimal]
  unfold parseMeetingUsage
  rw [hroute, hprocessed, hcharged]
  simp [routeOf_text, digitValue_decimal, hp]

end RoundTrip

end OwnMinutes.Quota.UsageNotes
