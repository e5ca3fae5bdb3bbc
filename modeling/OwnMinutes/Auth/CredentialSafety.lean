import OwnMinutes.Auth.CredentialSteps

/-! # Old credentials

What a step leaves of the records of the store (`users_from`, `resets_from`, `records_from`, `sessions_from`), the
invariant of the drawn tokens, and what follows for runs: used and replaced tokens are dead, an account that is
deleted stays so, and the sessions of an account are of its current password where every session is created while
the password of its login still is. -/

namespace OwnMinutes.Auth.CredentialSafety

open OwnMinutes.Lib OwnMinutes.Lib.Keyed
open OwnMinutes.Auth.ProcessingRoute OwnMinutes.Auth.Records OwnMinutes.Auth.Credentials
open OwnMinutes.Auth.CredentialSteps

variable {platform : Platform} {now : Timestamp} {s t : System} {call : Call} {outcome : Outcome}
  {store : CredentialStore} {logins : List Login} {label : Label}

/-! ### What a step leaves of the records -/

/-- The account will not be granted the registration bonus any more. -/
def BonusDone (user : Account) : Prop := user.emailVerifiedAt.isSome = true ∨ user.deletedAt.isSome = true

/-- An account after a step, from the one before it. -/
structure SameAccount (outcome : Outcome) (before after : Account) : Prop where
  id : after.id = before.id
  bonus : BonusDone before → BonusDone after
  deleted : before.deletedAt.isSome = true → after.deletedAt.isSome = true
  password : outcome ≠ .changed after.id → outcome ≠ .reset after.id → after.active = true →
    after.passwordSalt = before.passwordSalt ∧ after.passwordHash = before.passwordHash

theorem SameAccount.refl (outcome : Outcome) (user : Account) : SameAccount outcome user user :=
  ⟨rfl, fun h => h, fun h => h, fun _ _ _ => ⟨rfl, rfl⟩⟩

theorem users_replace {user after : Account} (huser : OnAccount s user after) (hsame : SameAccount outcome user after) :
    ∀ u ∈ s.store.users.replace after, ∃ before ∈ s.store.users, SameAccount outcome before u := by
  intro u hu
  rcases Table.mem_of_mem_replace hu with hu | rfl
  · exact ⟨u, hu, SameAccount.refl _ u⟩
  · exact ⟨user, huser.mem, hsame⟩

theorem not_deleted {user : Account} (hactive : user.active = true) : ¬ user.deletedAt.isSome = true := by
  have hnone : user.deletedAt.isNone = true := hactive
  rw [Option.isNone_iff_eq_none] at hnone
  rw [hnone]
  exact Bool.false_ne_true

theorem users_from (h : Answer platform now s call store logins outcome) :
    ∀ u ∈ store.users, (∃ before ∈ s.store.users, SameAccount outcome before u) ∨ u.id ∈ call.ids := by
  intro u hu
  cases h with
  | registered hdrawn hbonus =>
    rcases Table.mem_of_mem_insert hu with hu | rfl
    · exact .inl ⟨u, hu, SameAccount.refl _ u⟩
    · rw [hdrawn]
      exact .inr List.mem_cons_self
  | accepted hsession huser =>
    exact .inl (users_replace huser ⟨rfl, fun h => h, fun h => h, fun _ _ _ => ⟨rfl, rfl⟩⟩ u hu)
  | changed huser =>
    exact .inl (users_replace huser ⟨rfl, fun h => h, fun h => h, fun hne _ _ => absurd rfl hne⟩ u hu)
  | reset huser hrecord htoken hunused =>
    exact .inl (users_replace huser ⟨rfl, fun h => h, fun h => h, fun _ hne _ => absurd rfl hne⟩ u hu)
  | verified huser hkept hverified hbonus hrecord hunused hlink p hdraws =>
    refine .inl (users_replace huser ⟨huser.id, fun _ => .inl hverified, fun hdeleted => ?_, fun _ _ _ => ?_⟩ u hu)
    · rw [hkept.1]
      exact hdeleted
    · exact hkept.2
  | deleted huser hdeleted =>
    refine .inl (users_replace huser ⟨huser.id, fun _ => .inr hdeleted, fun _ => hdeleted, fun _ _ hactive => ?_⟩ u
      hu)
    exact absurd hdeleted (not_deleted hactive)
  | refused | loggedIn | settled | session | resetIssued => exact .inl ⟨u, hu, SameAccount.refl _ u⟩
  | verificationIssued | mismatched => exact .inl ⟨u, hu, SameAccount.refl _ u⟩

/-- A reset token after a step, from the one before it. -/
structure SameReset (before after : PasswordResetTokenRecord) : Prop where
  id : after.id = before.id
  userId : after.userId = before.userId
  tokenHash : after.tokenHash = before.tokenHash
  used : before.usedAt ≠ none → after.usedAt ≠ none

theorem resets_from (h : Answer platform now s call store logins outcome) :
    ∀ r ∈ store.passwordResetTokens, (∃ before ∈ s.store.passwordResetTokens, SameReset before r) ∨
      call.ids = [r.id] ∧ ∃ token ∈ call.tokens, r.tokenHash = platform.hashToken token ∧
        outcome = .resetIssued r.userId token := by
  intro r hr
  have hsame : r ∈ s.store.passwordResetTokens → ∃ before ∈ s.store.passwordResetTokens, SameReset before r :=
    fun hr => ⟨r, hr, rfl, rfl, rfl, id⟩
  cases h with
  | resetIssued huser p hp =>
    rcases Table.mem_of_mem_insert hr with hr | rfl
    · exact .inl (hsame (Table.mem_removeWhere.mp hr).1)
    · exact .inr ⟨rfl, _, List.mem_cons_self, rfl, rfl⟩
  | reset huser hrecord htoken hunused =>
    rcases Table.mem_of_mem_replace hr with hr | rfl
    · exact .inl (hsame hr)
    · exact .inl ⟨_, hrecord, rfl, rfl, rfl, fun _ => Option.some_ne_none _⟩
  | deleted => exact .inl (hsame (Table.mem_removeWhere.mp hr).1)
  | refused | registered | loggedIn | settled | session | accepted | changed => exact .inl (hsame hr)
  | verificationIssued | verified | mismatched => exact .inl (hsame hr)

/-- A verification token after a step, from the one before it. -/
structure SameRecord (before after : EmailVerificationTokenRecord) : Prop where
  id : after.id = before.id
  userId : after.userId = before.userId
  tokenHash : after.tokenHash = before.tokenHash
  kind : after.credentialKind = before.credentialKind
  used : before.usedAt ≠ none → after.usedAt ≠ none
  attempts : before.failedAttempts ≤ after.failedAttempts

theorem SameRecord.refl (record : EmailVerificationTokenRecord) : SameRecord record record :=
  ⟨rfl, rfl, rfl, rfl, fun h => h, le_rfl⟩

theorem records_from (h : Answer platform now s call store logins outcome) :
    ∀ r ∈ store.emailVerificationTokens, (∃ before ∈ s.store.emailVerificationTokens, SameRecord before r) ∨
      r.id ∈ call.ids ∧ r.failedAttempts = 0 ∧
        (∃ token otpId, outcome = .verificationIssued r.userId token otpId) ∧
        (r.credentialKind = .link → (∃ token ∈ call.tokens, r.tokenHash = platform.hashToken token) ∧
          call.ids.head? = some r.id) := by
  intro r hr
  have hsame : r ∈ s.store.emailVerificationTokens → ∃ before ∈ s.store.emailVerificationTokens,
      SameRecord before r := fun hr => ⟨r, hr, SameRecord.refl r⟩
  cases h with
  | verificationIssued huser p hp hlink hotp =>
    rcases Table.mem_of_mem_insert hr with hr | rfl
    · rcases Table.mem_of_mem_insert hr with hr | rfl
      · exact .inl (hsame (Table.mem_removeWhere.mp hr).1)
      · obtain ⟨hid, huserId, htoken, -, -, hattempts⟩ := hlink
        refine .inr ⟨?_, hattempts, ⟨_, _, congrArg (fun u => Outcome.verificationIssued u _ _) huserId.symm⟩,
          fun _ => ⟨⟨_, List.mem_cons_self, htoken⟩, ?_⟩⟩
        · rw [hid]
          exact List.mem_cons_self
        · rw [hid]
          rfl
    · obtain ⟨hid, huserId, -, hkind, hattempts⟩ := hotp
      refine .inr ⟨?_, hattempts, ⟨_, _, congrArg (fun u => Outcome.verificationIssued u _ _) huserId.symm⟩,
        fun hlink => ?_⟩
      · rw [hid]
        exact List.mem_cons_of_mem _ List.mem_cons_self
      · rw [hkind] at hlink
        cases hlink
  | verified huser hkept hverified hbonus hrecord hunused hlink p hdraws =>
    rcases Table.mem_of_mem_replace (Table.mem_removeWhere.mp hr).1 with hr | rfl
    · exact .inl (hsame hr)
    · exact .inl ⟨_, hrecord, rfl, rfl, rfl, rfl, fun _ => Option.some_ne_none _, le_rfl⟩
  | mismatched hrecord hattempts =>
    rcases Table.mem_of_mem_replace hr with hr | rfl
    · exact .inl (hsame hr)
    · exact .inl ⟨_, hrecord, rfl, rfl, rfl, rfl, id, Nat.le_succ _⟩
  | deleted => exact .inl (hsame (Table.mem_removeWhere.mp hr).1)
  | refused | registered | loggedIn | settled | session | accepted | changed | resetIssued => exact .inl (hsame hr)
  | reset => exact .inl (hsame hr)

/-- A session is one of before, or that of a login whose user had the password of the login then. -/
theorem sessions_from (h : Answer platform now s call store logins outcome) :
    ∀ σ ∈ store.sessions, (∃ before ∈ s.store.sessions, σ.userId = before.userId ∧ σ.tokenHash = before.tokenHash) ∨
      ∃ index sessionId token password, call = .createSession index sessionId token ∧
        σ.tokenHash = platform.hashToken token ∧ s.logins[index]? = some ⟨σ.userId, password, true, none⟩ ∧
        logins = s.logins.set index ⟨σ.userId, password, true, some token⟩ ∧
        ∃ user, findById s.store σ.userId = some user := by
  intro σ hσ
  have hsame : σ ∈ s.store.sessions →
      ∃ before ∈ s.store.sessions, σ.userId = before.userId ∧ σ.tokenHash = before.tokenHash :=
    fun hσ => ⟨σ, hσ, rfl, rfl⟩
  cases h with
  | session hlogin huser p =>
    rcases Table.mem_of_mem_insert hσ with hσ | rfl
    · exact .inl (hsame (Table.mem_removeWhere.mp hσ).1)
    · exact .inr ⟨_, _, _, _, rfl, rfl, hlogin, rfl, _, huser⟩
  | accepted hsession huser =>
    rcases Table.mem_of_mem_replace hσ with hσ | rfl
    · exact .inl (hsame hσ)
    · exact .inl ⟨_, hsession, rfl, rfl⟩
  | changed | reset | deleted => exact .inl (hsame (Table.mem_removeWhere.mp hσ).1)
  | refused | registered | loggedIn | settled | resetIssued | verificationIssued | verified => exact .inl (hsame hσ)
  | mismatched => exact .inl (hsame hσ)

/-- A login keeps the session that it was given. -/
theorem logins_keep (h : Answer platform now s call store logins outcome) {login : Login}
    (hlogin : login ∈ s.logins) (hsession : login.session ≠ none) : login ∈ logins := by
  have hset : ∀ {index : ℕ} {old new : Login}, s.logins[index]? = some old → old.session = none →
      login ∈ s.logins.set index new := by
    intro index old new hold hnone
    obtain ⟨place, hplace⟩ := List.mem_iff_getElem?.mp hlogin
    have hne : index ≠ place := by
      rintro rfl
      rw [hplace] at hold
      cases hold
      exact hsession hnone
    refine List.mem_iff_getElem?.mpr ⟨place, ?_⟩
    rw [List.getElem?_set_ne hne, hplace]
  cases h with
  | loggedIn => exact List.mem_append_left _ hlogin
  | settled hold | session hold huser p => exact hset hold rfl
  | refused | registered | accepted | changed | resetIssued | reset | verificationIssued | verified => exact hlogin
  | mismatched | deleted => exact hlogin

/-! ### Drawn ids and tokens -/

/-- Every id and every token of the store was drawn, and no two records have one token. -/
structure Drawn (platform : Platform) (s : System) : Prop where
  users : ∀ user ∈ s.store.users, user.id ∈ s.ids
  resets : ∀ r ∈ s.store.passwordResetTokens, ∃ token ∈ s.tokens, r.tokenHash = platform.hashToken token
  resets_one : ∀ a ∈ s.store.passwordResetTokens, ∀ b ∈ s.store.passwordResetTokens, a.tokenHash = b.tokenHash →
    a.id = b.id
  records : ∀ r ∈ s.store.emailVerificationTokens, r.id ∈ s.ids
  links : ∀ r ∈ s.store.emailVerificationTokens, r.credentialKind = .link →
    ∃ token ∈ s.tokens, r.tokenHash = platform.hashToken token
  links_one : ∀ a ∈ s.store.emailVerificationTokens, ∀ b ∈ s.store.emailVerificationTokens,
    a.credentialKind = .link → b.credentialKind = .link → a.tokenHash = b.tokenHash → a.id = b.id

theorem drawn_empty : Drawn platform {} := by
  constructor <;> intro r hr <;> exact absurd hr (Table.not_mem_empty r)

/-- A token that is drawn now is of no record. -/
theorem fresh_token {token : Text} (hfresh : (call.tokens ++ s.tokens).Nodup) (htoken : token ∈ call.tokens)
    {hash : Text} (hold : ∃ token ∈ s.tokens, hash = platform.hashToken token) : hash ≠ platform.hashToken token := by
  obtain ⟨old, hold, rfl⟩ := hold
  intro heq
  have hsame := platform.hashToken_injective heq
  subst hsame
  exact (List.disjoint_of_nodup_append hfresh) htoken hold

theorem drawn_step (h : Drawn platform s) (hstep : Step platform s label t) : Drawn platform t := by
  obtain ⟨hids, htokens, hanswer, hids', htokens'⟩ := step_cases hstep
  have hresets := resets_from hanswer
  have hrecords := records_from hanswer
  constructor
  · intro u hu
    rw [hids', List.mem_append]
    rcases users_from hanswer u hu with ⟨before, hbefore, hsame⟩ | hnew
    · rw [hsame.id]
      exact .inr (h.users before hbefore)
    · exact .inl hnew
  · intro r hr
    rw [htokens']
    rcases hresets r hr with ⟨before, hbefore, hsame⟩ | ⟨-, token, htoken, hhash, -⟩
    · obtain ⟨token, htoken, hhash⟩ := h.resets before hbefore
      exact ⟨token, List.mem_append_right _ htoken, hsame.tokenHash.trans hhash⟩
    · exact ⟨token, List.mem_append_left _ htoken, hhash⟩
  · intro a ha b hb heq
    rcases hresets a ha with ⟨a', ha', hsa⟩ | ⟨hida, token, htoken, hhash, -⟩
    · rcases hresets b hb with ⟨b', hb', hsb⟩ | ⟨-, token, htoken, hhash, -⟩
      · rw [hsa.id, hsb.id]
        rw [hsa.tokenHash, hsb.tokenHash] at heq
        exact h.resets_one a' ha' b' hb' heq
      · rw [hsa.tokenHash, hhash] at heq
        exact absurd heq (fresh_token htokens htoken (h.resets a' ha'))
    · rcases hresets b hb with ⟨b', hb', hsb⟩ | ⟨hidb, -⟩
      · rw [hsb.tokenHash, hhash] at heq
        exact absurd heq.symm (fresh_token htokens htoken (h.resets b' hb'))
      · rw [hida] at hidb
        injection hidb
  · intro r hr
    rw [hids', List.mem_append]
    rcases hrecords r hr with ⟨before, hbefore, hsame⟩ | ⟨hnew, -⟩
    · rw [hsame.id]
      exact .inr (h.records before hbefore)
    · exact .inl hnew
  · intro r hr hlink
    rw [htokens']
    rcases hrecords r hr with ⟨before, hbefore, hsame⟩ | ⟨-, -, -, hnew⟩
    · obtain ⟨token, htoken, hhash⟩ := h.links before hbefore (hsame.kind.symm.trans hlink)
      exact ⟨token, List.mem_append_right _ htoken, hsame.tokenHash.trans hhash⟩
    · obtain ⟨⟨token, htoken, hhash⟩, -⟩ := hnew hlink
      exact ⟨token, List.mem_append_left _ htoken, hhash⟩
  · intro a ha b hb hla hlb heq
    rcases hrecords a ha with ⟨a', ha', hsa⟩ | ⟨-, -, -, hnewa⟩
    · have hla' := hsa.kind.symm.trans hla
      rcases hrecords b hb with ⟨b', hb', hsb⟩ | ⟨-, -, -, hnewb⟩
      · rw [hsa.id, hsb.id]
        rw [hsa.tokenHash, hsb.tokenHash] at heq
        exact h.links_one a' ha' b' hb' hla' (hsb.kind.symm.trans hlb) heq
      · obtain ⟨⟨token, htoken, hhash⟩, -⟩ := hnewb hlb
        rw [hsa.tokenHash, hhash] at heq
        exact absurd heq (fresh_token htokens htoken (h.links a' ha' hla'))
    · obtain ⟨⟨token, htoken, hhash⟩, hida⟩ := hnewa hla
      rcases hrecords b hb with ⟨b', hb', hsb⟩ | ⟨-, -, -, hnewb⟩
      · rw [hsb.tokenHash, hhash] at heq
        exact absurd heq.symm (fresh_token htokens htoken (h.links b' hb' (hsb.kind.symm.trans hlb)))
      · obtain ⟨-, hidb⟩ := hnewb hlb
        rw [hida] at hidb
        injection hidb

/-! ### What stays dead -/

/-- No unused reset token has this text. -/
def ResetDead (platform : Platform) (token : Text) (s : System) : Prop :=
  token ∈ s.tokens ∧ ∀ r ∈ s.store.passwordResetTokens, r.tokenHash = platform.hashToken token → r.usedAt ≠ none

/-- No unused verification link has this text. -/
def LinkDead (platform : Platform) (token : Text) (s : System) : Prop :=
  token ∈ s.tokens ∧ ∀ r ∈ s.store.emailVerificationTokens, r.credentialKind = .link →
    r.tokenHash = platform.hashToken token → r.usedAt ≠ none

/-- No unused verification record has this id. -/
def RecordDead (recordId : String) (s : System) : Prop :=
  recordId ∈ s.ids ∧ ∀ r ∈ s.store.emailVerificationTokens, r.id = recordId → r.usedAt ≠ none

/-- The account has been granted its bonus or will not be any more. -/
def Granted (userId : UserId) (s : System) : Prop :=
  userId ∈ s.ids ∧ ∀ user ∈ s.store.users, user.id = userId → BonusDone user

/-- The account is deleted. -/
def Gone (userId : UserId) (s : System) : Prop :=
  userId ∈ s.ids ∧ ∀ user ∈ s.store.users, user.id = userId → user.deletedAt.isSome = true

theorem resetDead_step {token : Text} (hstep : Step platform s label t) (h : ResetDead platform token s) :
    ResetDead platform token t := by
  obtain ⟨-, htokens, hanswer, -, htokens'⟩ := step_cases hstep
  refine ⟨htokens' ▸ List.mem_append_right _ h.1, fun r hr hhash => ?_⟩
  rcases resets_from hanswer r hr with ⟨before, hbefore, hsame⟩ | ⟨-, new, hnew, hhash', -⟩
  · exact hsame.used (h.2 before hbefore (hsame.tokenHash.symm.trans hhash))
  · exact absurd hhash.symm (hhash' ▸ fresh_token htokens hnew ⟨token, h.1, rfl⟩)

theorem linkDead_step {token : Text} (hstep : Step platform s label t) (h : LinkDead platform token s) :
    LinkDead platform token t := by
  obtain ⟨-, htokens, hanswer, -, htokens'⟩ := step_cases hstep
  refine ⟨htokens' ▸ List.mem_append_right _ h.1, fun r hr hlink hhash => ?_⟩
  rcases records_from hanswer r hr with ⟨before, hbefore, hsame⟩ | ⟨-, -, -, hnew⟩
  · exact hsame.used (h.2 before hbefore (hsame.kind.symm.trans hlink) (hsame.tokenHash.symm.trans hhash))
  · obtain ⟨⟨new, hnew, hhash'⟩, -⟩ := hnew hlink
    exact absurd hhash.symm (hhash' ▸ fresh_token htokens hnew ⟨token, h.1, rfl⟩)

/-- An id that is drawn now is of no record. -/
theorem fresh_id {id : String} (hfresh : (call.ids ++ s.ids).Nodup) (hold : id ∈ s.ids) : id ∉ call.ids :=
  fun hnew => List.disjoint_of_nodup_append hfresh hnew hold

variable {recordId : String}

theorem recordDead_step (hstep : Step platform s label t) (h : RecordDead recordId s) : RecordDead recordId t := by
  obtain ⟨hids, -, hanswer, hids', -⟩ := step_cases hstep
  refine ⟨hids' ▸ List.mem_append_right _ h.1, fun r hr hid => ?_⟩
  rcases records_from hanswer r hr with ⟨before, hbefore, hsame⟩ | ⟨hnew, -⟩
  · exact hsame.used (h.2 before hbefore (hsame.id.symm.trans hid))
  · exact absurd (hid ▸ hnew) (fresh_id hids h.1)

theorem granted_step {userId : UserId} (hstep : Step platform s label t) (h : Granted userId s) :
    Granted userId t := by
  obtain ⟨hids, -, hanswer, hids', -⟩ := step_cases hstep
  refine ⟨hids' ▸ List.mem_append_right _ h.1, fun u hu hid => ?_⟩
  rcases users_from hanswer u hu with ⟨before, hbefore, hsame⟩ | hnew
  · exact hsame.bonus (h.2 before hbefore (hsame.id.symm.trans hid))
  · exact absurd (hid ▸ hnew) (fresh_id hids h.1)

theorem gone_step {userId : UserId} (hstep : Step platform s label t) (h : Gone userId s) : Gone userId t := by
  obtain ⟨hids, -, hanswer, hids', -⟩ := step_cases hstep
  refine ⟨hids' ▸ List.mem_append_right _ h.1, fun u hu hid => ?_⟩
  rcases users_from hanswer u hu with ⟨before, hbefore, hsame⟩ | hnew
  · exact hsame.deleted (h.2 before hbefore (hsame.id.symm.trans hid))
  · exact absurd (hid ▸ hnew) (fresh_id hids h.1)

/-! ### Labels -/

/-- The reset token is accepted. -/
def usesReset (token : Text) (label : Label) : Bool :=
  match label.call, label.outcome with
  | .resetPasswordWithToken given _ _, .reset _ => given = token
  | _, _ => false

/-- The verification link is accepted. -/
def usesLink (token : Text) (label : Label) : Bool :=
  match label.call, label.outcome with
  | .verifyEmailWithToken given _, .verified _ _ _ => given = token
  | _, _ => false

/-- The verification record is accepted, by its link or its code. -/
def usesRecord (recordId : String) (label : Label) : Bool :=
  match label.outcome with
  | .verified _ given _ => given = recordId
  | _ => false

/-- A wrong code is compared with the one of the record. -/
def mismatches (recordId : String) (label : Label) : Bool :=
  match label.outcome with
  | .mismatched given _ => given = recordId
  | _ => false

/-- The account is granted its registration bonus. -/
def grantsBonus (userId : UserId) (label : Label) : Bool :=
  match label.outcome with
  | .registered given bonus => given = userId && bonus
  | .verified given _ bonus => given = userId && bonus
  | _ => false

theorem usesReset_eq {token : Text} (h : usesReset token ⟨now, call, outcome⟩ = true) :
    ∃ newPassword salt userId, call = .resetPasswordWithToken token newPassword salt ∧ outcome = .reset userId := by
  unfold usesReset at h
  split at h
  · rename_i given newPassword salt userId hcall houtcome
    rw [decide_eq_true_eq] at h
    exact ⟨newPassword, salt, userId, h ▸ hcall, houtcome⟩
  · cases h

theorem usesLink_eq {token : Text} (h : usesLink token ⟨now, call, outcome⟩ = true) :
    ∃ usageId userId recordId bonus, call = .verifyEmailWithToken token usageId ∧
      outcome = .verified userId recordId bonus := by
  unfold usesLink at h
  split at h
  · rename_i given usageId userId recordId bonus hcall houtcome
    rw [decide_eq_true_eq] at h
    exact ⟨usageId, userId, recordId, bonus, h ▸ hcall, houtcome⟩
  · cases h

theorem usesRecord_eq (h : usesRecord recordId ⟨now, call, outcome⟩ = true) :
    ∃ userId bonus, outcome = .verified userId recordId bonus := by
  unfold usesRecord at h
  split at h
  · rename_i userId given bonus houtcome
    rw [decide_eq_true_eq] at h
    exact ⟨userId, bonus, h ▸ houtcome⟩
  · cases h

theorem mismatches_eq (h : mismatches recordId ⟨now, call, outcome⟩ = true) :
    ∃ error, outcome = .mismatched recordId error := by
  unfold mismatches at h
  split at h
  · rename_i given error houtcome
    rw [decide_eq_true_eq] at h
    exact ⟨error, h ▸ houtcome⟩
  · cases h

theorem grantsBonus_eq {userId : UserId} (h : grantsBonus userId ⟨now, call, outcome⟩ = true) :
    outcome = .registered userId true ∨ ∃ recordId, outcome = .verified userId recordId true := by
  unfold grantsBonus at h
  split at h
  · rename_i given bonus houtcome
    rw [Bool.and_eq_true, decide_eq_true_eq] at h
    exact .inl (h.1 ▸ h.2 ▸ houtcome)
  · rename_i given recordId bonus houtcome
    rw [Bool.and_eq_true, decide_eq_true_eq] at h
    exact .inr ⟨recordId, h.1 ▸ h.2 ▸ houtcome⟩
  · cases h

/-! ### What an accepted token leaves dead -/

theorem resetDead_of_uses (h : Drawn platform s) (hstep : Step platform s label t) {token : Text}
    (huses : usesReset token label = true) : ¬ ResetDead platform token s ∧ ResetDead platform token t := by
  obtain ⟨-, -, hanswer, -, htokens⟩ := step_cases hstep
  obtain ⟨store, logins, ids, tokens⟩ := t
  obtain ⟨now, call, outcome⟩ := label
  obtain ⟨newPassword, salt, userId, rfl, rfl⟩ := usesReset_eq huses
  dsimp only at hanswer htokens
  cases hanswer with
  | refused hrefusal => cases hrefusal
  | @reset _ _ _ record user huser hrecord htoken hunused =>
    refine ⟨fun hdead => hdead.2 record hrecord htoken hunused, ?_, fun r hr hhash => ?_⟩
    · obtain ⟨drawn, hdrawn, hhash⟩ := h.resets record hrecord
      rw [platform.hashToken_injective (htoken.symm.trans hhash), htokens]
      exact List.mem_append_right _ hdrawn
    · rcases Table.mem_replace.mp hr with ⟨hr, hne⟩ | ⟨rfl, -⟩
      · exact absurd (h.resets_one r hr record hrecord (hhash.trans htoken.symm)) hne
      · exact Option.some_ne_none _

theorem linkDead_of_uses (h : Drawn platform s) (hstep : Step platform s label t) {token : Text}
    (huses : usesLink token label = true) : ¬ LinkDead platform token s ∧ LinkDead platform token t := by
  obtain ⟨-, -, hanswer, -, htokens⟩ := step_cases hstep
  obtain ⟨store, logins, ids, tokens⟩ := t
  obtain ⟨now, call, outcome⟩ := label
  obtain ⟨usageId, userId, recordId, bonus, rfl, rfl⟩ := usesLink_eq huses
  dsimp only at hanswer htokens
  cases hanswer with
  | refused hrefusal => cases hrefusal
  | @verified _ record user after _ _ huser hkept hverified hbonus hrecord hunused hlink p hdraws =>
    obtain ⟨hkind, htoken⟩ := hlink _ _ rfl
    refine ⟨fun hdead => hdead.2 record hrecord hkind htoken hunused, ?_, fun r hr hlink hhash => ?_⟩
    · obtain ⟨drawn, hdrawn, hhash⟩ := h.links record hrecord hkind
      rw [platform.hashToken_injective (htoken.symm.trans hhash), htokens]
      exact List.mem_append_right _ hdrawn
    · rcases Table.mem_replace.mp (Table.mem_removeWhere.mp hr).1 with ⟨hr, hne⟩ | ⟨rfl, -⟩
      · exact absurd (h.links_one r hr record hrecord hlink hkind (hhash.trans htoken.symm)) hne
      · exact Option.some_ne_none _

theorem recordDead_of_uses (h : Drawn platform s) (hstep : Step platform s label t)
    (huses : usesRecord recordId label = true) : ¬ RecordDead recordId s ∧ RecordDead recordId t := by
  obtain ⟨-, -, hanswer, hids, -⟩ := step_cases hstep
  obtain ⟨store, logins, ids, tokens⟩ := t
  obtain ⟨now, call, outcome⟩ := label
  obtain ⟨userId, bonus, rfl⟩ := usesRecord_eq huses
  dsimp only at hanswer hids
  cases hanswer with
  | refused hrefusal => cases hrefusal
  | @verified _ record user after _ _ huser hkept hverified hbonus hrecord hunused hlink p hdraws =>
    refine ⟨fun hdead => hdead.2 record hrecord rfl hunused, ?_, fun r hr hid => ?_⟩
    · rw [hids]
      exact List.mem_append_right _ (h.records record hrecord)
    · rcases Table.mem_replace.mp (Table.mem_removeWhere.mp hr).1 with ⟨-, hne⟩ | ⟨rfl, -⟩
      · exact absurd hid hne
      · exact Option.some_ne_none _

theorem granted_of_grants (h : Drawn platform s) (hstep : Step platform s label t) {userId : UserId}
    (hgrants : grantsBonus userId label = true) : ¬ Granted userId s ∧ Granted userId t := by
  obtain ⟨hfresh, -, hanswer, hids, -⟩ := step_cases hstep
  obtain ⟨store, logins, ids, tokens⟩ := t
  obtain ⟨now, call, outcome⟩ := label
  dsimp only at hanswer hids hfresh
  rcases grantsBonus_eq hgrants with rfl | ⟨recordId, rfl⟩
  · cases hanswer with
    | refused hrefusal => cases hrefusal
    | @registered _ user usageEvents _ hdrawn hbonus =>
      have hnew : user.id ∈ call.ids := by
        rw [hdrawn]
        exact List.mem_cons_self
      refine ⟨fun hgranted => fresh_id hfresh hgranted.1 hnew, ?_, fun u hu hid => ?_⟩
      · rw [hids]
        exact List.mem_append_left _ hnew
      · rcases Table.mem_of_mem_insert hu with hu | rfl
        · exact absurd (hid ▸ hnew) (fresh_id hfresh (h.users u hu))
        · exact .inl (hbonus rfl)
  · cases hanswer with
    | refused hrefusal => cases hrefusal
    | @verified _ record user after _ _ huser hkept hverified hbonus hrecord hunused hlink p hdraws =>
      refine ⟨fun hgranted => ?_, ?_, fun u hu hid => ?_⟩
      · rcases hgranted.2 user huser.mem rfl with hdone | hdone
        · rw [hbonus rfl] at hdone
          cases hdone
        · exact not_deleted huser.active hdone
      · rw [hids]
        exact List.mem_append_right _ (h.users user huser.mem)
      · rcases Table.mem_replace.mp hu with ⟨-, hne⟩ | ⟨rfl, -⟩
        · exact absurd (hid.trans huser.id.symm) hne
        · exact .inl hverified

/-! ### What a newer token leaves dead -/

/-- The reset token is of this account. -/
def OwnsReset (platform : Platform) (userId : UserId) (token : Text) (s : System) : Prop :=
  token ∈ s.tokens ∧ ∀ r ∈ s.store.passwordResetTokens, r.tokenHash = platform.hashToken token → r.userId = userId

/-- The verification link is of this account. -/
def OwnsLink (platform : Platform) (userId : UserId) (token : Text) (s : System) : Prop :=
  token ∈ s.tokens ∧ ∀ r ∈ s.store.emailVerificationTokens, r.credentialKind = .link →
    r.tokenHash = platform.hashToken token → r.userId = userId

/-- The verification record is of this account. -/
def OwnsRecord (userId : UserId) (recordId : String) (s : System) : Prop :=
  recordId ∈ s.ids ∧ ∀ r ∈ s.store.emailVerificationTokens, r.id = recordId → r.userId = userId

theorem ownsReset_step {userId : UserId} {token : Text} (hstep : Step platform s label t)
    (h : OwnsReset platform userId token s) : OwnsReset platform userId token t := by
  obtain ⟨-, htokens, hanswer, -, htokens'⟩ := step_cases hstep
  refine ⟨htokens' ▸ List.mem_append_right _ h.1, fun r hr hhash => ?_⟩
  rcases resets_from hanswer r hr with ⟨before, hbefore, hsame⟩ | ⟨-, new, hnew, hhash', -⟩
  · exact hsame.userId.trans (h.2 before hbefore (hsame.tokenHash.symm.trans hhash))
  · exact absurd hhash.symm (hhash' ▸ fresh_token htokens hnew ⟨token, h.1, rfl⟩)

theorem ownsLink_step {userId : UserId} {token : Text} (hstep : Step platform s label t)
    (h : OwnsLink platform userId token s) : OwnsLink platform userId token t := by
  obtain ⟨-, htokens, hanswer, -, htokens'⟩ := step_cases hstep
  refine ⟨htokens' ▸ List.mem_append_right _ h.1, fun r hr hlink hhash => ?_⟩
  rcases records_from hanswer r hr with ⟨before, hbefore, hsame⟩ | ⟨-, -, -, hnew⟩
  · exact hsame.userId.trans
      (h.2 before hbefore (hsame.kind.symm.trans hlink) (hsame.tokenHash.symm.trans hhash))
  · obtain ⟨⟨new, hnew, hhash'⟩, -⟩ := hnew hlink
    exact absurd hhash.symm (hhash' ▸ fresh_token htokens hnew ⟨token, h.1, rfl⟩)

theorem ownsRecord_step {userId : UserId} (hstep : Step platform s label t) (h : OwnsRecord userId recordId s) :
    OwnsRecord userId recordId t := by
  obtain ⟨hids, -, hanswer, hids', -⟩ := step_cases hstep
  refine ⟨hids' ▸ List.mem_append_right _ h.1, fun r hr hid => ?_⟩
  rcases records_from hanswer r hr with ⟨before, hbefore, hsame⟩ | ⟨hnew, -⟩
  · exact hsame.userId.trans (h.2 before hbefore (hsame.id.symm.trans hid))
  · exact absurd (hid ▸ hnew) (fresh_id hids h.1)

/-- A reset token that is issued is of the account, and the earlier ones of the account are dead. -/
theorem reset_issued (h : Drawn platform s) (hstep : Step platform s label t) {userId : UserId} {token : Text}
    (hissued : label.outcome = .resetIssued userId token) :
    OwnsReset platform userId token t ∧ ∀ old, OwnsReset platform userId old s → ResetDead platform old t := by
  obtain ⟨-, hfresh, hanswer, -, htokens⟩ := step_cases hstep
  obtain ⟨store, logins, ids, tokens⟩ := t
  obtain ⟨now, call, outcome⟩ := label
  dsimp only at hanswer htokens hfresh hissued
  subst hissued
  cases hanswer with
  | refused hrefusal => cases hrefusal
  | @resetIssued _ resetId _ user huser p hp =>
    refine ⟨⟨htokens ▸ List.mem_cons_self, fun r hr hhash => ?_⟩, fun old hold => ⟨?_, fun r hr hhash => ?_⟩⟩
    · rcases Table.mem_of_mem_insert hr with hr | rfl
      · have hother := h.resets r (Table.mem_removeWhere.mp hr).1
        exact absurd hhash (fresh_token hfresh List.mem_cons_self hother)
      · rfl
    · rw [htokens]
      exact List.mem_append_right _ hold.1
    · rcases Table.mem_of_mem_insert hr with hr | rfl
      · obtain ⟨hr, hkept⟩ := Table.mem_removeWhere.mp hr
        exact absurd (hold.2 r hr hhash) (hp r hkept)
      · exact absurd hhash.symm (fresh_token hfresh List.mem_cons_self ⟨old, hold.1, rfl⟩)

/-- A verification that is issued is of the account, and the earlier ones of the account are dead. -/
theorem verification_issued (h : Drawn platform s) (hstep : Step platform s label t) {userId : UserId} {token : Text}
    {otpId : String} (hissued : label.outcome = .verificationIssued userId token otpId) :
    OwnsLink platform userId token t ∧ OwnsRecord userId otpId t ∧
      (∀ old, OwnsLink platform userId old s → LinkDead platform old t) ∧
      ∀ old, OwnsRecord userId old s → RecordDead old t := by
  obtain ⟨hfreshId, hfresh, hanswer, hids, htokens⟩ := step_cases hstep
  obtain ⟨store, logins, ids, tokens⟩ := t
  obtain ⟨now, call, outcome⟩ := label
  dsimp only at hanswer htokens hids hfresh hfreshId hissued
  subst hissued
  cases hanswer with
  | refused hrefusal => cases hrefusal
  | @verificationIssued _ linkId _ _ _ user link otp huser p hp hlink hotp =>
    have hmem : ∀ r ∈ ((s.store.emailVerificationTokens.removeWhere p).insert link).insert otp,
        (r ∈ s.store.emailVerificationTokens ∧ r.userId ≠ user.id) ∨ r = link ∨ r = otp := by
      intro r hr
      rcases Table.mem_of_mem_insert hr with hr | rfl
      · rcases Table.mem_of_mem_insert hr with hr | rfl
        · obtain ⟨hr, hkept⟩ := Table.mem_removeWhere.mp hr
          exact .inl ⟨hr, hp r hkept⟩
        · exact .inr (.inl rfl)
      · exact .inr (.inr rfl)
    have hlinkId : link.id ∈ [linkId, otpId] := by simp [hlink.1]
    have hotpId : otp.id ∈ [linkId, otpId] := by simp [hotp.1]
    refine ⟨⟨htokens ▸ List.mem_cons_self, fun r hr hkind hhash => ?_⟩, ⟨?_, fun r hr hid => ?_⟩,
      fun old hold => ⟨?_, fun r hr hkind hhash => ?_⟩, fun old hold => ⟨?_, fun r hr hid => ?_⟩⟩
    · rcases hmem r hr with ⟨hr, -⟩ | rfl | rfl
      · exact absurd hhash (fresh_token hfresh List.mem_cons_self (h.links r hr hkind))
      · exact hlink.2.1
      · exact hotp.2.1
    · rw [hids]
      exact List.mem_append_left _ (List.mem_cons_of_mem _ List.mem_cons_self)
    · rcases hmem r hr with ⟨hr, -⟩ | rfl | rfl
      · have hnew : r.id ∈ [linkId, otpId] := by simp [hid]
        exact absurd hnew (fresh_id hfreshId (h.records r hr))
      · exact hlink.2.1
      · exact hotp.2.1
    · rw [htokens]
      exact List.mem_append_right _ hold.1
    · rcases hmem r hr with ⟨hr, hother⟩ | rfl | rfl
      · exact absurd (hold.2 r hr hkind hhash) hother
      · rw [hlink.2.2.1] at hhash
        exact absurd hhash.symm (fresh_token hfresh List.mem_cons_self ⟨old, hold.1, rfl⟩)
      · rw [hotp.2.2.2.1] at hkind
        cases hkind
    · rw [hids]
      exact List.mem_append_right _ hold.1
    · rcases hmem r hr with ⟨hr, hother⟩ | rfl | rfl
      · exact absurd (hold.2 r hr hid) hother
      · exact absurd (hid ▸ hlinkId) (fresh_id hfreshId hold.1)
      · exact absurd (hid ▸ hotpId) (fresh_id hfreshId hold.1)

/-! ### Wrong codes -/

/-- The wrong codes that the record has been compared with; as many as there can be where it is dropped. -/
def spent (recordId : String) (s : System) : ℕ :=
  if recordId ∈ s.ids then
    match s.store.emailVerificationTokens.get? recordId with
    | some r => min r.failedAttempts EMAIL_VERIFICATION_MAX_FAILED_ATTEMPTS
    | none => EMAIL_VERIFICATION_MAX_FAILED_ATTEMPTS
  else 0

theorem spent_le (recordId : String) (s : System) : spent recordId s ≤ EMAIL_VERIFICATION_MAX_FAILED_ATTEMPTS := by
  unfold spent
  split_ifs
  · split
    · exact min_le_right _ _
    · exact le_rfl
  · exact Nat.zero_le _

theorem spent_of_mem {r : EmailVerificationTokenRecord} (hr : r ∈ s.store.emailVerificationTokens)
    (hid : r.id = recordId) (hdrawn : recordId ∈ s.ids) :
    spent recordId s = min r.failedAttempts EMAIL_VERIFICATION_MAX_FAILED_ATTEMPTS := by
  have hget : s.store.emailVerificationTokens.get? recordId = some r := Table.get?_eq_some.mpr ⟨hr, hid⟩
  rw [spent, if_pos hdrawn, hget]

theorem spent_mono (hstep : Step platform s label t) (recordId : String) : spent recordId s ≤ spent recordId t := by
  obtain ⟨hfresh, -, hanswer, hids, -⟩ := step_cases hstep
  by_cases hdrawn : recordId ∈ s.ids
  · have hdrawn' : recordId ∈ t.ids := hids ▸ List.mem_append_right _ hdrawn
    rcases hget : t.store.emailVerificationTokens.get? recordId with _ | r
    · have hfull : spent recordId t = EMAIL_VERIFICATION_MAX_FAILED_ATTEMPTS := by
        rw [spent, if_pos hdrawn', hget]
      rw [hfull]
      exact spent_le recordId s
    · obtain ⟨hr, hid⟩ := Table.get?_eq_some.mp hget
      rcases records_from hanswer r hr with ⟨before, hbefore, hsame⟩ | ⟨hnew, -⟩
      · rw [spent_of_mem hr hid hdrawn', spent_of_mem hbefore (hsame.id.symm.trans hid) hdrawn]
        exact min_le_min_right _ hsame.attempts
      · have hid' : r.id = recordId := hid
        exact absurd (hid' ▸ hnew) (fresh_id hfresh hdrawn)
  · have hzero : spent recordId s = 0 := if_neg hdrawn
    omega

theorem mismatched_cases {error : AuthError}
    (h : Answer platform now s call store logins (.mismatched recordId error)) :
    ∃ record ∈ s.store.emailVerificationTokens, record.id = recordId ∧
      record.failedAttempts < EMAIL_VERIFICATION_MAX_FAILED_ATTEMPTS ∧
      ∃ failed ∈ store.emailVerificationTokens, failed.id = recordId ∧
        failed.failedAttempts = record.failedAttempts + 1 := by
  cases h with
  | refused hrefusal => cases hrefusal
  | @mismatched _ _ _ record _ _ hrecord hattempts =>
    exact ⟨record, hrecord, rfl, hattempts, _, Table.mem_replace_self hrecord rfl, rfl, rfl⟩

theorem spent_step (h : Drawn platform s) (hstep : Step platform s label t) (recordId : String) :
    spent recordId s + (if mismatches recordId label then 1 else 0) ≤ spent recordId t := by
  have hmono := spent_mono hstep recordId
  split_ifs with hmismatch
  · obtain ⟨-, -, hanswer, hids, -⟩ := step_cases hstep
    obtain ⟨error, herror⟩ := mismatches_eq hmismatch
    rw [herror] at hanswer
    obtain ⟨record, hrecord, hid, hattempts, failed, hfailed, hid', hmore⟩ := mismatched_cases hanswer
    have hdrawn : recordId ∈ s.ids := hid ▸ h.records record hrecord
    have hdrawn' : recordId ∈ t.ids := hids ▸ List.mem_append_right _ hdrawn
    rw [spent_of_mem hrecord hid hdrawn, spent_of_mem hfailed hid' hdrawn', hmore]
    omega
  · omega

/-! ### Deleted accounts -/

theorem gone_of_deleted (h : Drawn platform s) (hstep : Step platform s label t) {userId : UserId}
    (hdeleted : label.outcome = .deleted userId) : Gone userId t := by
  obtain ⟨-, -, hanswer, hids, -⟩ := step_cases hstep
  obtain ⟨store, logins, ids, tokens⟩ := t
  obtain ⟨now, call, outcome⟩ := label
  dsimp only at hanswer hids hdeleted
  subst hdeleted
  cases hanswer with
  | refused hrefusal => cases hrefusal
  | @deleted _ _ user after _ huser hgone =>
    refine ⟨hids ▸ List.mem_append_right _ (h.users user huser.mem), fun u hu hid => ?_⟩
    rcases Table.mem_replace.mp hu with ⟨-, hne⟩ | ⟨rfl, -⟩
    · exact absurd (hid.trans huser.id.symm) hne
    · exact hgone

theorem user_of_isRefusal (h : outcome.isRefusal = true) : outcome.user = none := by
  cases outcome <;> first | rfl | cases h

/-- No call is answered for a deleted account. -/
theorem no_user_of_gone (hstep : Step platform s label t) {userId : UserId} (h : Gone userId s) :
    label.outcome.user ≠ some userId := by
  obtain ⟨hfresh, -, hanswer, -, -⟩ := step_cases hstep
  obtain ⟨store, logins, ids, tokens⟩ := t
  obtain ⟨now, call, outcome⟩ := label
  dsimp only at hanswer hfresh ⊢
  intro hsome
  have habsent : ∀ {user : Account}, user ∈ s.store.users → user.active = true → some user.id ≠ some userId :=
    fun hmem hactive hid => not_deleted hactive (h.2 _ hmem (Option.some.inj hid))
  cases hanswer with
  | refused hrefusal =>
    rw [user_of_isRefusal hrefusal] at hsome
    cases hsome
  | registered hdrawn =>
    refine fresh_id hfresh h.1 ?_
    rw [hdrawn, ← Option.some.inj hsome]
    exact List.mem_cons_self
  | session hlogin huser =>
    obtain ⟨hmem, hactive, -⟩ := of_findById huser
    exact habsent hmem hactive hsome
  | loggedIn huser | accepted _ huser | changed huser => exact habsent huser.mem huser.active hsome
  | resetIssued huser | reset huser | verificationIssued huser => exact habsent huser.mem huser.active hsome
  | verified huser | deleted huser => exact habsent huser.mem huser.active hsome
  | settled | mismatched => cases hsome

/-! ### Sessions of the current password -/

/-- A completed change or reset of the password: the new password and the session that it keeps. -/
def changes (userId : UserId) (label : Label) : Option (Text × Option Text) :=
  match label.call, label.outcome with
  | .changePassword _ _ newPassword currentSessionToken _, .changed given =>
    if given = userId then some (newPassword, currentSessionToken) else none
  | .resetPasswordWithToken _ newPassword _, .reset given => if given = userId then some (newPassword, none) else none
  | _, _ => none

/-- The session was kept, or is that of a login with the password. -/
def OfPassword (platform : Platform) (userId : UserId) (password : Text) (kept : Option Text) (logins : List Login)
    (tokenHash : Text) : Prop :=
  (∃ token, kept = some token ∧ tokenHash = platform.hashToken token) ∨
    ∃ login ∈ logins, login.userId = userId ∧ login.password = password ∧
      ∃ token, login.session = some token ∧ tokenHash = platform.hashToken token

/-- The password of the account, and where its sessions come from. -/
structure Holds (platform : Platform) (userId : UserId) (password : Text) (kept : Option Text) (s : System) :
    Prop where
  drawn : userId ∈ s.ids
  users : ∀ user ∈ s.store.users, user.id = userId → user.active = true →
    platform.scrypt password user.passwordSalt = user.passwordHash
  sessions : ∀ σ ∈ s.store.sessions, σ.userId = userId →
    OfPassword platform userId password kept s.logins σ.tokenHash

/-- Where the call creates the session of a login, the account still has the password that the login was checked
with. -/
def currentPassword (platform : Platform) (s : System) (label : Label) : Bool :=
  match label.call with
  | .createSession index _ _ =>
    match s.logins[index]? with
    | some login =>
      match findById s.store login.userId with
      | some user => verifyPassword platform login.password user.passwordSalt user.passwordHash
      | none => true
    | none => true
  | _ => true

/-- The account of a call that changes the password has the new one. -/
theorem users_of_password {user : Account} {userId : UserId} {password salt : Text} (hid : user.id = userId) :
    ∀ u ∈ s.store.users.replace (user.withPassword platform password salt), u.id = userId →
      platform.scrypt password u.passwordSalt = u.passwordHash := by
  intro u hu hu'
  rcases Table.mem_replace.mp hu with ⟨-, hne⟩ | ⟨rfl, -⟩
  · exact absurd (hu'.trans hid.symm) hne
  · rfl

theorem holds_of_changes (h : Drawn platform s) (hstep : Step platform s label t) {userId : UserId} {password : Text}
    {kept : Option Text} (hchanges : changes userId label = some (password, kept)) :
    Holds platform userId password kept t := by
  obtain ⟨-, -, hanswer, hids, -⟩ := step_cases hstep
  obtain ⟨store, logins, ids, tokens⟩ := t
  obtain ⟨now, call, outcome⟩ := label
  dsimp only at hanswer hids
  unfold changes at hchanges
  dsimp only at hchanges
  split at hchanges
  · split_ifs at hchanges with huser
    cases hchanges
    subst huser
    cases hanswer with
    | refused hrefusal => cases hrefusal
    | changed huser =>
      refine ⟨hids ▸ List.mem_append_right _ (h.users _ huser.mem), fun u hu hid _ => users_of_password rfl u hu hid,
        fun σ hσ hid => ?_⟩
      obtain ⟨-, hkept⟩ := Table.mem_removeWhere.mp hσ
      rcases Bool.and_eq_false_iff.mp hkept with hother | hkept
      · exact absurd hid (of_decide_eq_false hother)
      · rw [decide_eq_false_iff_not, not_not] at hkept
        obtain ⟨token, htoken, hhash⟩ := Option.map_eq_some_iff.mp hkept
        exact .inl ⟨token, (Option.filter_eq_some_iff.mp htoken).1, hhash.symm⟩
  · split_ifs at hchanges with huser
    cases hchanges
    subst huser
    cases hanswer with
    | refused hrefusal => cases hrefusal
    | reset huser =>
      refine ⟨hids ▸ List.mem_append_right _ (h.users _ huser.mem), fun u hu hid _ => users_of_password rfl u hu hid,
        fun σ hσ hid => ?_⟩
      obtain ⟨-, hkept⟩ := Table.mem_removeWhere.mp hσ
      exact absurd hid (of_decide_eq_false hkept)
  · cases hchanges

/-- Other calls change the password of no account. -/
theorem not_changed_of_changes {userId : UserId} (hanswer : Answer platform now s call store logins outcome)
    (h : changes userId ⟨now, call, outcome⟩ = none) : outcome ≠ .changed userId ∧ outcome ≠ .reset userId := by
  unfold changes at h
  dsimp only at h
  constructor
  · rintro rfl
    cases hanswer with
    | refused hrefusal => cases hrefusal
    | changed huser =>
      dsimp only at h
      rw [if_pos rfl] at h
      cases h
  · rintro rfl
    cases hanswer with
    | refused hrefusal => cases hrefusal
    | reset huser =>
      dsimp only at h
      rw [if_pos rfl] at h
      cases h

theorem holds_step {userId : UserId} {password : Text} {kept : Option Text} (hstep : Step platform s label t)
    (hcurrent : currentPassword platform s label = true) (hunchanged : changes userId label = none)
    (h : Holds platform userId password kept s) : Holds platform userId password kept t := by
  obtain ⟨hfresh, -, hanswer, hids, -⟩ := step_cases hstep
  obtain ⟨hchanged, hreset⟩ := not_changed_of_changes hanswer hunchanged
  refine ⟨hids ▸ List.mem_append_right _ h.drawn, fun u hu hid hactive => ?_, fun σ hσ hid => ?_⟩
  · rcases users_from hanswer u hu with ⟨before, hbefore, hsame⟩ | hnew
    · have hbeforeActive : before.active = true := by
        by_contra hinactive
        have hdeleted : before.deletedAt.isSome = true := by
          rw [Option.isSome_iff_ne_none]
          exact fun hnone => hinactive (Option.isNone_iff_eq_none.mpr hnone)
        exact not_deleted hactive (hsame.deleted hdeleted)
      obtain ⟨hsalt, hhash⟩ := hsame.password (hid ▸ hchanged) (hid ▸ hreset) hactive
      rw [hsalt, hhash]
      exact h.users before hbefore (hsame.id.symm.trans hid) hbeforeActive
    · exact absurd (hid ▸ hnew) (fresh_id hfresh h.drawn)
  · have hkeeps : ∀ {tokenHash : Text}, OfPassword platform userId password kept s.logins tokenHash →
        OfPassword platform userId password kept t.logins tokenHash := by
      rintro tokenHash (hkept | ⟨login, hlogin, huser, hpassword, token, hsession, hhash⟩)
      · exact .inl hkept
      · refine .inr ⟨login, logins_keep hanswer hlogin ?_, huser, hpassword, token, hsession, hhash⟩
        rw [hsession]
        exact Option.some_ne_none _
    rcases sessions_from hanswer σ hσ with ⟨before, hbefore, huser, hhash⟩ |
      ⟨index, sessionId, token, checked, hcall, hhash, hlogin, hlogins, user, huser⟩
    · rw [hhash]
      exact hkeeps (h.sessions before hbefore (huser.symm.trans hid))
    · have hverified : verifyPassword platform checked user.passwordSalt user.passwordHash = true := by
        unfold currentPassword at hcurrent
        rw [hcall] at hcurrent
        dsimp only at hcurrent
        rw [hlogin] at hcurrent
        dsimp only at hcurrent
        rwa [huser] at hcurrent
      obtain ⟨hmem, hactive, hid'⟩ := of_findById huser
      have hholds := h.users user hmem (hid'.trans hid) hactive
      have hpassword : checked = password :=
        platform.scrypt_injective user.passwordSalt ((of_decide_eq_true hverified).trans hholds.symm)
      refine .inr ⟨⟨σ.userId, checked, true, some token⟩, ?_, hid, hpassword, token, rfl, hhash⟩
      rw [hlogins]
      exact List.mem_set (List.getElem?_eq_some_iff.mp hlogin).1 _

end OwnMinutes.Auth.CredentialSafety
