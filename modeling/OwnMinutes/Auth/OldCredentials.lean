import OwnMinutes.Auth.CredentialSafety

/-! # Old credentials grant nothing

In runs of any number of clients, used and replaced tokens, the registration bonus and a deleted account give
nothing again. The sessions of an account are of its new password too, as long as every session is created while
the account still has the password that the login was checked with: `loginUser` and `createSession` are two
transactions, and `createSession` asks for the account alone. -/

namespace OwnMinutes.Auth.OldCredentials

open OwnMinutes.Lib OwnMinutes.Lib.Runs OwnMinutes.Lib.Keyed
open OwnMinutes.Auth.ProcessingRoute OwnMinutes.Auth.Records OwnMinutes.Auth.Credentials
open OwnMinutes.Auth.CredentialSteps OwnMinutes.Auth.CredentialSafety

variable {platform : Platform} {s t : System} {labels : List Label}

theorem drawn_run (h : Run (Step platform) s labels t) (hs : Drawn platform s) : Drawn platform t :=
  h.invariant (fun _ _ _ hdrawn hstep => drawn_step hdrawn hstep) hs

/-! ### Once -/

variable {D : System → Prop} {pre post : List Label}

/-- What leaves something dead, and cannot come where it is, comes once. -/
theorem once_of_dead (h : Run (Step platform) {} labels s) {p : Label → Bool}
    (hkeep : ∀ {s t : System} {label : Label}, Step platform s label t → D s → D t)
    (hdead : ∀ {s t : System} {label : Label}, Drawn platform s → Step platform s label t → p label = true →
      ¬ D s ∧ D t) : labels.countP p ≤ 1 := by
  have hboth : ∀ s label t, Drawn platform s → Step platform s label t →
      Drawn platform t ∧ (D s → D t ∧ p label = false) ∧ (p label = true → D t) := by
    intro s label t hdrawn hstep
    refine ⟨drawn_step hdrawn hstep, fun hD => ⟨hkeep hstep hD, ?_⟩, fun hp => (hdead hdrawn hstep hp).2⟩
    rw [← Bool.not_eq_true]
    exact fun hp => (hdead hdrawn hstep hp).1 hD
  exact (h.countP_le_one hboth drawn_empty).1

theorem reset_once (h : Run (Step platform) {} labels s) (token : Text) : labels.countP (usesReset token) ≤ 1 :=
  once_of_dead h resetDead_step fun hdrawn hstep huses => resetDead_of_uses hdrawn hstep huses

theorem link_once (h : Run (Step platform) {} labels s) (token : Text) : labels.countP (usesLink token) ≤ 1 :=
  once_of_dead h linkDead_step fun hdrawn hstep huses => linkDead_of_uses hdrawn hstep huses

theorem record_once (h : Run (Step platform) {} labels s) (recordId : String) :
    labels.countP (usesRecord recordId) ≤ 1 :=
  once_of_dead h recordDead_step fun hdrawn hstep huses => recordDead_of_uses hdrawn hstep huses

theorem bonus_once (h : Run (Step platform) {} labels s) (userId : UserId) :
    labels.countP (grantsBonus userId) ≤ 1 :=
  once_of_dead h granted_step fun hdrawn hstep hgrants => granted_of_grants hdrawn hstep hgrants

theorem wrong_codes (h : Run (Step platform) {} labels s) (recordId : String) :
    labels.countP (mismatches recordId) ≤ EMAIL_VERIFICATION_MAX_FAILED_ATTEMPTS := by
  have hkeep : ∀ s label t, Drawn platform s → Step platform s label t → Drawn platform t ∧
      spent recordId s + (if mismatches recordId label then 1 else 0) ≤ spent recordId t := fun _ _ _ hdrawn hstep =>
    ⟨drawn_step hdrawn hstep, spent_step hdrawn hstep recordId⟩
  have hcount := h.countP_le hkeep drawn_empty
  have hle := spent_le recordId s
  omega

/-! ### Never again -/

/-- What cannot come where something is dead does not come after a step that leaves it dead. -/
theorem never_after {P : Label → Prop}
    (hkeep : ∀ {s t : System} {label : Label}, Step platform s label t → D s → D t)
    (hdead : ∀ {s t : System} {label : Label}, Drawn platform s → Step platform s label t → D s → P label)
    (h : Run (Step platform) s labels t) (hdrawn : Drawn platform s) (hD : D s) : ∀ label ∈ labels, P label := by
  have hboth : ∀ s label t, Drawn platform s ∧ D s → Step platform s label t →
      (Drawn platform t ∧ D t) ∧ P label := fun s label t hs hstep =>
    ⟨⟨drawn_step hs.1 hstep, hkeep hstep hs.2⟩, hdead hs.1 hstep hs.2⟩
  exact (h.forall_mem hboth ⟨hdrawn, hD⟩).2

/-- A token that is dead is not accepted any more. -/
theorem never_accepted {p : Label → Bool}
    (hkeep : ∀ {s t : System} {label : Label}, Step platform s label t → D s → D t)
    (hdead : ∀ {s t : System} {label : Label}, Drawn platform s → Step platform s label t → p label = true →
      ¬ D s ∧ D t) (h : Run (Step platform) s labels t) (hdrawn : Drawn platform s) (hD : D s) :
    ∀ label ∈ labels, p label = false := by
  refine never_after hkeep (fun hdrawn hstep hD => ?_) h hdrawn hD
  rw [← Bool.not_eq_true]
  exact fun hp => (hdead hdrawn hstep hp).1 hD

/-- What a step of a run makes true and steps keep is true at its end. -/
theorem holds_after {label : Label} (hkeep : ∀ {s t : System} {label : Label}, Step platform s label t → D s → D t)
    (hmake : ∀ {s t : System}, Drawn platform s → Step platform s label t → D t) (h : Run (Step platform) s labels t)
    (hdrawn : Drawn platform s) (hlabel : label ∈ labels) : D t := by
  obtain ⟨pre, post, rfl⟩ := List.append_of_mem hlabel
  obtain ⟨u, hpre, hpost⟩ := Run.append_iff.mp h
  obtain ⟨v, hstep, hpost⟩ := Run.cons_iff.mp hpost
  exact hpost.invariant (fun _ _ _ hD hstep => hkeep hstep hD) (hmake (drawn_run hpre hdrawn) hstep)

/-- The middle of a run from the empty store. -/
theorem split_run {label : Label} (h : Run (Step platform) {} (pre ++ label :: post) s) :
    ∃ u v, Run (Step platform) {} pre u ∧ Step platform u label v ∧ Run (Step platform) v post s ∧
      Drawn platform u ∧ Drawn platform v := by
  obtain ⟨u, hpre, hpost⟩ := Run.append_iff.mp h
  obtain ⟨v, hstep, hpost⟩ := Run.cons_iff.mp hpost
  have hdrawn := drawn_run hpre drawn_empty
  exact ⟨u, v, hpre, hstep, hpost, hdrawn, drawn_step hdrawn hstep⟩

theorem reset_newest {label issue : Label} {userId : UserId} {old new : Text}
    (h : Run (Step platform) {} (pre ++ label :: post) s) (hnew : label.outcome = .resetIssued userId new)
    (hissue : issue ∈ pre) (hold : issue.outcome = .resetIssued userId old) :
    ∀ use ∈ post, usesReset old use = false := by
  obtain ⟨u, v, hpre, hstep, hpost, hdrawn, hdrawn'⟩ := split_run h
  have howns : OwnsReset platform userId old u :=
    holds_after ownsReset_step (fun hdrawn hstep => (reset_issued hdrawn hstep hold).1) hpre drawn_empty hissue
  have hdead := (reset_issued hdrawn hstep hnew).2 old howns
  exact never_accepted resetDead_step (fun hdrawn hstep huses => resetDead_of_uses hdrawn hstep huses) hpost hdrawn'
    hdead

theorem verification_newest {label issue : Label} {userId : UserId} {old new : Text} {oldId newId : String}
    (h : Run (Step platform) {} (pre ++ label :: post) s)
    (hnew : label.outcome = .verificationIssued userId new newId) (hissue : issue ∈ pre)
    (hold : issue.outcome = .verificationIssued userId old oldId) :
    ∀ use ∈ post, usesLink old use = false ∧ usesRecord oldId use = false := by
  obtain ⟨u, v, hpre, hstep, hpost, hdrawn, hdrawn'⟩ := split_run h
  have hlink : OwnsLink platform userId old u :=
    holds_after ownsLink_step (fun hdrawn hstep => (verification_issued hdrawn hstep hold).1) hpre drawn_empty hissue
  have hrecord : OwnsRecord userId oldId u :=
    holds_after ownsRecord_step (fun hdrawn hstep => (verification_issued hdrawn hstep hold).2.1) hpre drawn_empty
      hissue
  obtain ⟨-, -, hlinks, hrecords⟩ := verification_issued hdrawn hstep hnew
  intro use huse
  constructor
  · exact never_accepted linkDead_step (fun hdrawn hstep huses => linkDead_of_uses hdrawn hstep huses) hpost hdrawn'
      (hlinks old hlink) use huse
  · exact never_accepted recordDead_step (fun hdrawn hstep huses => recordDead_of_uses hdrawn hstep huses) hpost
      hdrawn' (hrecords oldId hrecord) use huse

theorem deleted_for_good {label : Label} {userId : UserId} (h : Run (Step platform) {} (pre ++ label :: post) s)
    (hdeleted : label.outcome = .deleted userId) : ∀ call ∈ post, call.outcome.user ≠ some userId := by
  obtain ⟨u, v, hpre, hstep, hpost, hdrawn, hdrawn'⟩ := split_run h
  exact never_after gone_step (fun _ hstep hgone => no_user_of_gone hstep hgone) hpost hdrawn'
    (gone_of_deleted hdrawn hstep hdeleted)

/-! ### Sessions -/

/-- A step that creates a session only of a login with the current password. -/
def CurrentStep (platform : Platform) (s : System) (label : Label) (t : System) : Prop :=
  Step platform s label t ∧ currentPassword platform s label = true

theorem accepted_session {now : Timestamp} {token : Text} {quota : UserRecord} {userId : UserId}
    (h : (getUserBySessionToken platform now token quota s.store).2 = .accepted userId) :
    ∃ σ ∈ s.store.sessions, σ.userId = userId ∧ σ.tokenHash = platform.hashToken token := by
  unfold getUserBySessionToken at h
  split_ifs at h
  split at h
  · cases h
  · rename_i σ hσ
    split at h
    · cases h
    · rename_i user huser
      obtain ⟨-, -, hid⟩ := of_findById huser
      injection h with h
      have hhash := Table.of_find? hσ
      rw [Bool.and_eq_true, decide_eq_true_eq] at hhash
      exact ⟨σ, Table.mem_of_find? hσ, hid.symm.trans h, hhash.1⟩

/-- After a change of the password, the sessions are the one kept and those of logins with the new password. -/
theorem sessions_current {label : Label} {userId : UserId} {password : Text} {kept : Option Text}
    (h : Run (CurrentStep platform) {} (pre ++ label :: post) s)
    (hchanges : changes userId label = some (password, kept)) (hrest : ∀ l ∈ post, changes userId l = none)
    {now : Timestamp} {token : Text} {quota : UserRecord}
    (haccepted : (getUserBySessionToken platform now token quota s.store).2 = .accepted userId) :
    kept = some token ∨ ∃ login ∈ s.logins, login.userId = userId ∧ login.session = some token ∧
      login.password = password := by
  obtain ⟨u, hpre, hpost⟩ := Run.append_iff.mp h
  obtain ⟨v, hstep, hpost⟩ := Run.cons_iff.mp hpost
  have hdrawn : Drawn platform u := drawn_run (hpre.mono fun _ _ _ hstep => hstep.1) drawn_empty
  have hholds : Holds platform userId password kept s := by
    have hrun := hpost.located
    refine hrun.invariant (fun a l b hholds hstep => ?_) (holds_of_changes hdrawn hstep.1 hchanges)
    obtain ⟨⟨hstep, hcurrent⟩, before, after, hlabels, -⟩ := hstep
    refine holds_step hstep hcurrent (hrest l ?_) hholds
    rw [hlabels]
    exact List.mem_append_right _ List.mem_cons_self
  obtain ⟨σ, hσ, huser, hhash⟩ := accepted_session haccepted
  rcases hholds.sessions σ hσ huser with ⟨token', hkept, hhash'⟩ | ⟨login, hlogin, huser, hpassword, token', hsession, hhash'⟩
  · have hsame := platform.hashToken_injective (hhash'.symm.trans hhash)
    exact .inl (hsame ▸ hkept)
  · have hsame := platform.hashToken_injective (hhash'.symm.trans hhash)
    exact .inr ⟨login, hlogin, huser, hsame ▸ hsession, hpassword⟩

/-! ### Old credentials grant nothing -/

structure OldCredentialsGrantNothing (platform : Platform) (labels : List Label) (s : System) : Prop where
  sessions : ∀ pre label post userId password kept, labels = pre ++ label :: post →
    changes userId label = some (password, kept) → (∀ l ∈ post, changes userId l = none) →
    ∀ now token quota, (getUserBySessionToken platform now token quota s.store).2 = .accepted userId →
      kept = some token ∨ ∃ login ∈ s.logins, login.userId = userId ∧ login.session = some token ∧
        login.password = password
  reset_once : ∀ token, labels.countP (usesReset token) ≤ 1
  link_once : ∀ token, labels.countP (usesLink token) ≤ 1
  record_once : ∀ recordId, labels.countP (usesRecord recordId) ≤ 1
  reset_newest : ∀ pre label post userId new, labels = pre ++ label :: post →
    label.outcome = .resetIssued userId new → ∀ issue ∈ pre, ∀ old, issue.outcome = .resetIssued userId old →
    ∀ use ∈ post, usesReset old use = false
  verification_newest : ∀ pre label post userId new newId, labels = pre ++ label :: post →
    label.outcome = .verificationIssued userId new newId →
    ∀ issue ∈ pre, ∀ old oldId, issue.outcome = .verificationIssued userId old oldId →
    ∀ use ∈ post, usesLink old use = false ∧ usesRecord oldId use = false
  wrong_codes : ∀ recordId, labels.countP (mismatches recordId) ≤ EMAIL_VERIFICATION_MAX_FAILED_ATTEMPTS
  bonus_once : ∀ userId, labels.countP (grantsBonus userId) ≤ 1
  deleted : ∀ pre label post userId, labels = pre ++ label :: post → label.outcome = .deleted userId →
    ∀ call ∈ post, call.outcome.user ≠ some userId

theorem old_credentials_grant_nothing (h : Run (CurrentStep platform) {} labels s) :
    OldCredentialsGrantNothing platform labels s := by
  have hrun : Run (Step platform) {} labels s := h.mono fun _ _ _ hstep => hstep.1
  constructor
  · rintro pre label post userId password kept rfl hchanges hrest now token quota haccepted
    exact sessions_current h hchanges hrest haccepted
  · exact reset_once hrun
  · exact link_once hrun
  · exact record_once hrun
  · rintro pre label post userId new rfl hnew issue hissue old hold
    exact reset_newest hrun hnew hissue hold
  · rintro pre label post userId new newId rfl hnew issue hissue old oldId hold
    exact verification_newest hrun hnew hissue hold
  · exact wrong_codes hrun
  · exact bonus_once hrun
  · rintro pre label post userId rfl hdeleted
    exact deleted_for_good hrun hdeleted

/-! ### A login that is overtaken by a change of the password -/

/-- Hashes that keep their texts apart. -/
def samplePlatform : Platform where
  toLowerCase text := text
  scrypt password salt := password ++ salt
  hashToken token := token
  hashEmailVerificationCode code tokenId userId := code ++ tokenId.toList ++ userId.toList
  scrypt_injective salt := List.append_left_injective salt
  hashToken_injective _ _ h := h

def oldPassword : Text := "old password".toList
def newPassword : Text := "new password".toList
def sessionToken : Text := "session token".toList

def registration : Label :=
  ⟨0, .registerUser false "ab@cd.ef".toList "ab".toList oldPassword "user" "salt".toList "usage",
    .registered "user" true⟩

def login : Label := ⟨1, .loginUser false "ab@cd.ef".toList oldPassword, .loggedIn "user"⟩

def settling : Label := ⟨2, .settleLogin 0, .settled⟩

def sessionOf (now : Timestamp) : Label := ⟨now, .createSession 0 "session" sessionToken, .session "user" sessionToken⟩

def passwordChange (now : Timestamp) (currentSessionToken : Option Text) : Label :=
  ⟨now, .changePassword "user" oldPassword newPassword currentSessionToken "grain".toList, .changed "user"⟩

/-- The session is created before the change, which keeps it. -/
def keptLabels : List Label :=
  [registration, login, settling, sessionOf 3, passwordChange 4 (some sessionToken)]

theorem old_credentials_grant_nothing_kept :
    ∃ s, Run (CurrentStep samplePlatform) {} keptLabels s ∧
      OldCredentialsGrantNothing samplePlatform keptLabels s := by
  have haccepted : (keptLabels.foldlM (fun s label =>
      if currentPassword samplePlatform s label then step samplePlatform s label else none) {}).isSome = true := by
    decide
  obtain ⟨s, hrun⟩ := Run.exists_of_isSome haccepted
  have hcurrent : Run (CurrentStep samplePlatform) {} keptLabels s := by
    refine hrun.mono fun a label b hstep => ?_
    split_ifs at hstep with hpassword
    exact ⟨hstep, hpassword⟩
  exact ⟨s, hcurrent, old_credentials_grant_nothing hcurrent⟩

/-- The password changes between the check of the login and its session. -/
def overtakenLabels : List Label :=
  [registration, login, settling, passwordChange 3 none, sessionOf 4]

theorem overtaken_login_accepted :
    ∃ s, Run (Step samplePlatform) {} overtakenLabels s ∧
      ¬ OldCredentialsGrantNothing samplePlatform overtakenLabels s := by
  have hrun : ∃ s ∈ overtakenLabels.foldlM (step samplePlatform) {},
      (getUserBySessionToken samplePlatform 5 sessionToken { id := "user" } s.store).2 = .accepted "user" ∧
        ∀ login ∈ s.logins, login.password ≠ newPassword := by
    decide
  obtain ⟨s, hs, haccepted, hlogins⟩ := hrun
  refine ⟨s, Run.of_foldlM hs, fun h => ?_⟩
  have hsessions := h.sessions [registration, login, settling] (passwordChange 3 none) [sessionOf 4] "user" newPassword
    none rfl rfl (by decide) 5 sessionToken { id := "user" } haccepted
  rcases hsessions with hkept | ⟨login, hlogin, -, -, hpassword⟩
  · cases hkept
  · exact hlogins login hlogin hpassword

end OwnMinutes.Auth.OldCredentials
