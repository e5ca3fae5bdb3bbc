import OwnMinutes.Auth.Credentials
import OwnMinutes.Lib.Runs

/-! # Steps of clients on the credential store

Any number of clients on one store: a login checks its password, settles its rate-limit reservation and creates
its session in three steps, every other call is one step. What a step draws has not been drawn before.

`Answer` is what a step can do to the store, `answer_of_step` that it does nothing else. -/

namespace OwnMinutes.Auth.CredentialSteps

open OwnMinutes.Lib OwnMinutes.Lib.Keyed OwnMinutes.Lib.Newest
open OwnMinutes.Auth.ProcessingRoute OwnMinutes.Auth.Records OwnMinutes.Auth.Errors OwnMinutes.Auth.Credentials

/-! ### The system -/

/-- A login whose password was right. -/
structure Login where
  userId : UserId
  password : Text
  settled : Bool := false
  session : Option Text := none
  deriving DecidableEq

/-- The store, the logins and what was drawn. -/
structure System where
  store : CredentialStore := {}
  logins : List Login := []
  ids : List String := []
  tokens : List Text := []
  deriving DecidableEq

inductive Call
  | registerUser (verificationRequired : Bool) (email name password : Text) (userId : UserId) (salt : Text)
      (usageId : String)
  | loginUser (verificationRequired : Bool) (email password : Text)
  | settleLogin (login : ℕ)
  | createSession (login : ℕ) (sessionId : String) (token : Text)
  | getUserBySessionToken (token : Text) (quota : UserRecord)
  | changePassword (userId : UserId) (currentPassword newPassword : Text) (currentSessionToken : Option Text)
      (salt : Text)
  | requestPasswordReset (email : Text) (resetId : String) (resetToken : Text)
  | resetPasswordWithToken (token newPassword salt : Text)
  | requestEmailVerification (email : Text) (linkId otpId : String) (verificationToken verificationCode : Text)
  | verifyEmailWithToken (token : Text) (usageId : String)
  | verifyEmailWithCode (email code : Text) (usageId : String)
  | deleteAccount (userId : UserId) (password salt : Text)
  deriving DecidableEq

/-- The ids that a call draws. -/
def Call.ids : Call → List String
  | registerUser _ _ _ _ userId _ _ => [userId]
  | createSession _ sessionId _ => [sessionId]
  | requestPasswordReset _ resetId _ => [resetId]
  | requestEmailVerification _ linkId otpId _ _ => [linkId, otpId]
  | _ => []

/-- The tokens that a call draws. -/
def Call.tokens : Call → List Text
  | createSession _ _ token => [token]
  | requestPasswordReset _ _ resetToken => [resetToken]
  | requestEmailVerification _ _ _ verificationToken _ => [verificationToken]
  | _ => []

structure Label where
  now : Timestamp
  call : Call
  outcome : Outcome
  deriving DecidableEq

variable (platform : Platform)

/-- The store, the logins and the answer after a call; `none` where the login is not there yet. -/
def answer (now : Timestamp) (s : System) : Call → Option (CredentialStore × List Login × Outcome)
  | .registerUser verificationRequired email name password userId salt usageId =>
    let (store, outcome) :=
      registerUser platform verificationRequired now email name password userId salt usageId s.store
    some (store, s.logins, outcome)
  | .loginUser verificationRequired email password =>
    match loginUser platform verificationRequired email password s.store with
    | .loggedIn userId => some (s.store, s.logins ++ [⟨userId, password, false, none⟩], .loggedIn userId)
    | outcome => some (s.store, s.logins, outcome)
  | .settleLogin index =>
    match s.logins[index]? with
    | some ⟨userId, password, false, none⟩ =>
      some (s.store, s.logins.set index ⟨userId, password, true, none⟩, .settled)
    | _ => none
  | .createSession index sessionId token =>
    match s.logins[index]? with
    | some ⟨userId, password, true, none⟩ =>
      match createSession platform now userId sessionId token s.store with
      | (store, .session userId token) =>
        some (store, s.logins.set index ⟨userId, password, true, some token⟩, .session userId token)
      | (store, outcome) => some (store, s.logins, outcome)
    | _ => none
  | .getUserBySessionToken token quota =>
    let (store, outcome) := getUserBySessionToken platform now token quota s.store
    some (store, s.logins, outcome)
  | .changePassword userId currentPassword newPassword currentSessionToken salt =>
    let (store, outcome) :=
      changePassword platform userId currentPassword newPassword currentSessionToken salt s.store
    some (store, s.logins, outcome)
  | .requestPasswordReset email resetId resetToken =>
    let (store, outcome) := requestPasswordReset platform now email resetId resetToken s.store
    some (store, s.logins, outcome)
  | .resetPasswordWithToken token newPassword salt =>
    let (store, outcome) := resetPasswordWithToken platform now token newPassword salt s.store
    some (store, s.logins, outcome)
  | .requestEmailVerification email linkId otpId verificationToken verificationCode =>
    let (store, outcome) :=
      requestEmailVerification platform now email linkId otpId verificationToken verificationCode s.store
    some (store, s.logins, outcome)
  | .verifyEmailWithToken token usageId =>
    let (store, outcome) := verifyEmailWithToken platform now token usageId s.store
    some (store, s.logins, outcome)
  | .verifyEmailWithCode email code usageId =>
    let (store, outcome) := verifyEmailWithCode platform now email code usageId s.store
    some (store, s.logins, outcome)
  | .deleteAccount userId password salt =>
    let (store, outcome) := deleteAccount platform now userId password salt s.store
    some (store, s.logins, outcome)

def step (s : System) (label : Label) : Option System :=
  if (label.call.ids ++ s.ids).Nodup ∧ (label.call.tokens ++ s.tokens).Nodup then
    match answer platform label.now s label.call with
    | some (store, logins, outcome) =>
      if outcome = label.outcome then
        some ⟨store, logins, label.call.ids ++ s.ids, label.call.tokens ++ s.tokens⟩
      else none
    | none => none
  else none

def Step (s : System) (label : Label) (t : System) : Prop := step platform s label = some t

/-! ### What a step can do -/

/-- An operation on an account that is there, and what it leaves of the account. -/
structure OnAccount (s : System) (user after : Account) : Prop where
  mem : user ∈ s.store.users
  active : user.active = true
  id : after.id = user.id

/-- What a call can do to the store and the logins, with what it is answered. -/
inductive Answer (now : Timestamp) (s : System) : Call → CredentialStore → List Login → Outcome → Prop
  | refused {call : Call} {outcome : Outcome} (hrefusal : outcome.isRefusal = true) :
      Answer now s call s.store s.logins outcome
  | registered {call : Call} {user : Account} {usageEvents : List UsageEventRecord} {bonus : Bool}
      (hdrawn : call.ids = [user.id]) (hbonus : bonus = true → user.emailVerifiedAt.isSome = true) :
      Answer now s call { s.store with users := s.store.users.insert user, usageEvents := usageEvents } s.logins
        (.registered user.id bonus)
  | loggedIn {verificationRequired : Bool} {email password : Text} {user : Account} (huser : OnAccount s user user) :
      Answer now s (.loginUser verificationRequired email password) s.store
        (s.logins ++ [⟨user.id, password, false, none⟩]) (.loggedIn user.id)
  | settled {index : ℕ} {userId : UserId} {password : Text}
      (hlogin : s.logins[index]? = some ⟨userId, password, false, none⟩) :
      Answer now s (.settleLogin index) s.store (s.logins.set index ⟨userId, password, true, none⟩) .settled
  | session {index : ℕ} {password : Text} {sessionId : String} {token : Text} {user : Account}
      (hlogin : s.logins[index]? = some ⟨user.id, password, true, none⟩)
      (huser : findById s.store user.id = some user) (p : SessionRecord → Bool) :
      Answer now s (.createSession index sessionId token)
        { s.store with
          sessions := (s.store.sessions.removeWhere p).insert
            ⟨sessionId, user.id, platform.hashToken token, now, now, now + SESSION_MAX_AGE_MS⟩ }
        (s.logins.set index ⟨user.id, password, true, some token⟩) (.session user.id token)
  | accepted {token : Text} {quota : UserRecord} {session : SessionRecord} {user : Account}
      (hsession : session ∈ s.store.sessions) (huser : OnAccount s user (user.refreshed quota)) :
      Answer now s (.getUserBySessionToken token quota)
        { s.store with
          users := s.store.users.replace (user.refreshed quota)
          sessions := s.store.sessions.replace { session with lastSeenAt := now } }
        s.logins (.accepted user.id)
  | changed {currentPassword newPassword salt : Text} {currentSessionToken : Option Text} {user : Account}
      (huser : OnAccount s user (user.withPassword platform newPassword salt)) :
      Answer now s (.changePassword user.id currentPassword newPassword currentSessionToken salt)
        { s.store with
          users := s.store.users.replace (user.withPassword platform newPassword salt)
          sessions := s.store.sessions.removeWhere fun session =>
            session.userId = user.id &&
              (currentSessionToken.filter fun token => token ≠ []).map platform.hashToken ≠ some session.tokenHash }
        s.logins (.changed user.id)
  | resetIssued {email : Text} {resetId : String} {resetToken : Text} {user : Account} (huser : OnAccount s user user)
      (p : PasswordResetTokenRecord → Bool) (hp : ∀ token, p token = false → token.userId ≠ user.id) :
      Answer now s (.requestPasswordReset email resetId resetToken)
        { s.store with
          passwordResetTokens := (s.store.passwordResetTokens.removeWhere p).insert
            ⟨resetId, user.id, platform.hashToken resetToken, now, now + PASSWORD_RESET_TTL_MS, none⟩ }
        s.logins (.resetIssued user.id resetToken)
  | reset {token newPassword salt : Text} {record : PasswordResetTokenRecord} {user : Account}
      (huser : OnAccount s user (user.withPassword platform newPassword salt))
      (hrecord : record ∈ s.store.passwordResetTokens) (htoken : record.tokenHash = platform.hashToken token)
      (hunused : record.usedAt = none) :
      Answer now s (.resetPasswordWithToken token newPassword salt)
        { s.store with
          users := s.store.users.replace (user.withPassword platform newPassword salt)
          passwordResetTokens := s.store.passwordResetTokens.replace { record with usedAt := some now }
          sessions := s.store.sessions.removeWhere fun session => session.userId = user.id }
        s.logins (.reset user.id)
  | verificationIssued {email : Text} {linkId otpId : String} {verificationToken verificationCode : Text}
      {user : Account} {link otp : EmailVerificationTokenRecord} (huser : OnAccount s user user)
      (p : EmailVerificationTokenRecord → Bool) (hp : ∀ token, p token = false → token.userId ≠ user.id)
      (hlink : link.id = linkId ∧ link.userId = user.id ∧ link.tokenHash = platform.hashToken verificationToken ∧
        link.usedAt = none ∧ link.credentialKind = .link ∧ link.failedAttempts = 0)
      (hotp : otp.id = otpId ∧ otp.userId = user.id ∧ otp.usedAt = none ∧ otp.credentialKind = .otp ∧
        otp.failedAttempts = 0) :
      Answer now s (.requestEmailVerification email linkId otpId verificationToken verificationCode)
        { s.store with
          emailVerificationTokens := ((s.store.emailVerificationTokens.removeWhere p).insert link).insert otp }
        s.logins (.verificationIssued user.id verificationToken otpId)
  | verified {call : Call} {record : EmailVerificationTokenRecord} {user after : Account}
      {usageEvents : List UsageEventRecord} {bonus : Bool} (huser : OnAccount s user after)
      (hkept : after.deletedAt = user.deletedAt ∧ after.passwordSalt = user.passwordSalt ∧
        after.passwordHash = user.passwordHash)
      (hverified : after.emailVerifiedAt.isSome = true) (hbonus : bonus = true → user.emailVerifiedAt = none)
      (hrecord : record ∈ s.store.emailVerificationTokens) (hunused : record.usedAt = none)
      (hlink : ∀ token usageId, call = .verifyEmailWithToken token usageId →
        record.credentialKind = .link ∧ record.tokenHash = platform.hashToken token)
      (p : EmailVerificationTokenRecord → Bool) (hdraws : call.ids = [] ∧ call.tokens = []) :
      Answer now s call
        { s.store with
          users := s.store.users.replace after
          usageEvents := usageEvents
          emailVerificationTokens :=
            (s.store.emailVerificationTokens.replace { record with usedAt := some now }).removeWhere p }
        s.logins (.verified user.id record.id bonus)
  | mismatched {email code : Text} {usageId : String} {record : EmailVerificationTokenRecord}
      {lockedAt : Option Timestamp} {error : AuthError} (hrecord : record ∈ s.store.emailVerificationTokens)
      (hattempts : record.failedAttempts < EMAIL_VERIFICATION_MAX_FAILED_ATTEMPTS) :
      Answer now s (.verifyEmailWithCode email code usageId)
        { s.store with
          emailVerificationTokens := s.store.emailVerificationTokens.replace
            { record with failedAttempts := record.failedAttempts + 1, lockedAt := lockedAt } }
        s.logins (.mismatched record.id error)
  | deleted {password salt : Text} {user after : Account} {usageEvents : List UsageEventRecord}
      (huser : OnAccount s user after) (hdeleted : after.deletedAt.isSome = true) :
      Answer now s (.deleteAccount user.id password salt)
        { s.store with
          users := s.store.users.replace after
          sessions := s.store.sessions.removeWhere fun session => session.userId = user.id
          emailVerificationTokens := s.store.emailVerificationTokens.removeWhere fun token => token.userId = user.id
          passwordResetTokens := s.store.passwordResetTokens.removeWhere fun token => token.userId = user.id
          usageEvents := usageEvents }
        s.logins (.deleted user.id)

variable {platform}

variable {now : Timestamp} {s : System}

theorem of_findById {userId : UserId} {user : Account} (h : findById s.store userId = some user) :
    user ∈ s.store.users ∧ user.active = true ∧ user.id = userId := by
  have hfound := Table.of_find? h
  rw [Bool.and_eq_true, decide_eq_true_eq] at hfound
  exact ⟨Table.mem_of_find? h, hfound⟩

theorem of_findByEmail {email : Text} {user : Account} (h : findByEmail s.store email = some user) :
    user ∈ s.store.users ∧ user.active = true := by
  have hfound := Table.of_find? h
  rw [Bool.and_eq_true] at hfound
  exact ⟨Table.mem_of_find? h, hfound.1⟩

variable {store : CredentialStore} {outcome : Outcome} {logins : List Login}

/-- An operation that leaves the store alone and is answered for nobody. -/
theorem answer_same {call : Call} {refusal : Outcome} (h : (s.store, refusal) = (store, outcome))
    (hrefusal : refusal.isRefusal = true) :
    Answer platform now s call store s.logins outcome := by
  cases h
  exact Answer.refused hrefusal

theorem registerUser_answer {verificationRequired : Bool} {email name password : Text} {userId : UserId} {salt : Text}
    {usageId : String}
    (h : registerUser platform verificationRequired now email name password userId salt usageId s.store =
      (store, outcome)) :
    Answer platform now s
      (.registerUser verificationRequired email name password userId salt usageId) store s.logins outcome := by
  unfold registerUser at h
  dsimp only at h
  split_ifs at h with hemail hname hpassword hregistered hrequired
  · exact answer_same h rfl
  · exact answer_same h rfl
  · exact answer_same h rfl
  · exact answer_same h rfl
  · cases h
    exact Answer.registered rfl fun hbonus => absurd hbonus Bool.false_ne_true
  · obtain ⟨hid, -, -, -, hverified⟩ := grantLocalRegistrationBonus_account s.store.usageEvents
      (newAccount platform verificationRequired now (normalizeEmail platform email) password userId salt) now usageId
    generalize grantLocalRegistrationBonus _ _ _ _ = granted at h hid hverified
    cases h
    have hdrawn : userId = granted.2.id := hid.symm
    subst hdrawn
    refine Answer.registered rfl fun _ => ?_
    rw [hverified]
    dsimp only [newAccount]
    rw [if_neg hrequired]
    rfl

theorem loginUser_answer {verificationRequired : Bool} {email password : Text}
    (h : answer platform now s (.loginUser verificationRequired email password) = some (store, logins, outcome)) :
    Answer platform now s (.loginUser verificationRequired email password) store logins outcome := by
  unfold answer loginUser at h
  dsimp only at h
  rcases hfound : findByEmail s.store (normalizeEmail platform email) with _ | user
  · rw [hfound] at h
    cases h
    exact Answer.refused rfl
  · rw [hfound] at h
    obtain ⟨hmem, hactive⟩ := of_findByEmail hfound
    dsimp only at h
    split_ifs at h
    · cases h
      exact Answer.refused rfl
    · cases h
      exact Answer.refused rfl
    · cases h
      exact Answer.loggedIn ⟨hmem, hactive, rfl⟩

theorem settleLogin_answer {index : ℕ}
    (h : answer platform now s (.settleLogin index) = some (store, logins, outcome)) :
    Answer platform now s (.settleLogin index) store logins outcome := by
  unfold answer at h
  dsimp only at h
  split at h
  · rename_i userId password hlogin
    cases h
    exact Answer.settled hlogin
  · cases h

theorem createSession_answer {index : ℕ} {sessionId : String} {token : Text}
    (h : answer platform now s (.createSession index sessionId token) = some (store, logins, outcome)) :
    Answer platform now s (.createSession index sessionId token) store logins outcome := by
  unfold answer createSession at h
  dsimp only at h
  split at h
  · rename_i userId password hlogin
    rcases huser : findById s.store userId with _ | user
    · rw [huser] at h
      cases h
      exact Answer.refused rfl
    · rw [huser] at h
      cases h
      obtain ⟨-, -, rfl⟩ := of_findById huser
      exact Answer.session hlogin huser _
  · cases h

theorem getUserBySessionToken_answer {token : Text} {quota : UserRecord}
    (h : getUserBySessionToken platform now token quota s.store = (store, outcome)) :
    Answer platform now s (.getUserBySessionToken token quota) store s.logins outcome := by
  unfold getUserBySessionToken at h
  split_ifs at h
  · exact answer_same h rfl
  · split at h
    · exact answer_same h rfl
    · rename_i session hsession
      split at h
      · exact answer_same h rfl
      · rename_i user huser
        obtain ⟨hmem, hactive, -⟩ := of_findById huser
        cases h
        exact Answer.accepted (Table.mem_of_find? hsession) ⟨hmem, hactive, rfl⟩

theorem changePassword_answer {userId : UserId} {currentPassword newPassword salt : Text}
    {currentSessionToken : Option Text}
    (h : changePassword platform userId currentPassword newPassword currentSessionToken salt s.store =
      (store, outcome)) :
    Answer platform now s
      (.changePassword userId currentPassword newPassword currentSessionToken salt) store s.logins outcome := by
  unfold changePassword at h
  split_ifs at h
  · exact answer_same h rfl
  · exact answer_same h rfl
  · split at h
    · exact answer_same h rfl
    · rename_i user huser
      obtain ⟨hmem, hactive, rfl⟩ := of_findById huser
      split_ifs at h
      · exact answer_same h rfl
      · cases h
        exact Answer.changed ⟨hmem, hactive, rfl⟩

theorem requestPasswordReset_answer {email : Text} {resetId : String} {resetToken : Text}
    (h : requestPasswordReset platform now email resetId resetToken s.store = (store, outcome)) :
    Answer platform now s (.requestPasswordReset email resetId resetToken) store s.logins outcome := by
  unfold requestPasswordReset at h
  dsimp only at h
  split_ifs at h
  · exact answer_same h rfl
  · split at h
    · exact answer_same h rfl
    · rename_i user huser
      obtain ⟨hmem, hactive⟩ := of_findByEmail huser
      split_ifs at h
      · exact answer_same h rfl
      · cases h
        refine Answer.resetIssued ⟨hmem, hactive, rfl⟩ _ fun token hkept => ?_
        simp only [Bool.not_eq_false', Bool.and_eq_true, decide_eq_true_eq] at hkept
        exact hkept.1.1

theorem resetPasswordWithToken_answer {token newPassword salt : Text}
    (h : resetPasswordWithToken platform now token newPassword salt s.store = (store, outcome)) :
    Answer platform now s (.resetPasswordWithToken token newPassword salt) store s.logins outcome := by
  unfold resetPasswordWithToken at h
  split_ifs at h
  · exact answer_same h rfl
  · exact answer_same h rfl
  · split at h
    · exact answer_same h rfl
    · rename_i record hrecord
      split_ifs at h
      · exact answer_same h rfl
      · split at h
        · exact answer_same h rfl
        · rename_i user huser
          obtain ⟨hmem, hactive, -⟩ := of_findById huser
          have hfound := Table.of_find? hrecord
          rw [Bool.and_eq_true, decide_eq_true_eq, Option.isNone_iff_eq_none] at hfound
          cases h
          exact Answer.reset ⟨hmem, hactive, rfl⟩ (Table.mem_of_find? hrecord) hfound.1 hfound.2

theorem requestEmailVerification_answer {email : Text} {linkId otpId : String}
    {verificationToken verificationCode : Text}
    (h : requestEmailVerification platform now email linkId otpId verificationToken verificationCode s.store =
      (store, outcome)) :
    Answer platform now s
      (.requestEmailVerification email linkId otpId verificationToken verificationCode) store s.logins outcome := by
  unfold requestEmailVerification at h
  dsimp only at h
  split_ifs at h
  · exact answer_same h rfl
  · split at h
    · exact answer_same h rfl
    · rename_i user huser
      obtain ⟨hmem, hactive⟩ := of_findByEmail huser
      split_ifs at h
      · exact answer_same h rfl
      · exact answer_same h rfl
      · cases h
        refine Answer.verificationIssued ⟨hmem, hactive, rfl⟩ _ (fun token hkept => ?_)
          ⟨rfl, rfl, rfl, rfl, rfl, rfl⟩ ⟨rfl, rfl, rfl, rfl, rfl⟩
        simp only [Bool.not_eq_false', Bool.and_eq_true, decide_eq_true_eq] at hkept
        exact hkept.1.1

/-- What both verifications write. -/
theorem verifyWith_answer {call : Call} {usageEvents : List UsageEventRecord} {user after : Account}
    {record : EmailVerificationTokenRecord} (huser : OnAccount s user after)
    (hkept : after.deletedAt = user.deletedAt ∧ after.passwordSalt = user.passwordSalt ∧
      after.passwordHash = user.passwordHash)
    (hverified : after.emailVerifiedAt.isSome = true)
    (hbonus : usageEvents ≠ s.store.usageEvents → user.emailVerifiedAt = none)
    (hrecord : record ∈ s.store.emailVerificationTokens) (hunused : record.usedAt = none)
    (hlink : ∀ token usageId, call = .verifyEmailWithToken token usageId →
      record.credentialKind = .link ∧ record.tokenHash = platform.hashToken token)
    (hdraws : call.ids = [] ∧ call.tokens = [])
    (h : verifyWith s.store usageEvents after record now = (store, outcome)) :
    Answer platform now s call store s.logins outcome := by
  unfold verifyWith at h
  rw [huser.id] at h
  cases h
  exact Answer.verified huser hkept hverified (fun htrue => hbonus (of_decide_eq_true htrue)) hrecord hunused hlink _
    hdraws

theorem verifyEmailWithToken_answer {token : Text} {usageId : String}
    (h : verifyEmailWithToken platform now token usageId s.store = (store, outcome)) :
    Answer platform now s (.verifyEmailWithToken token usageId) store s.logins outcome := by
  unfold verifyEmailWithToken at h
  split_ifs at h
  · exact answer_same h rfl
  · split at h
    · exact answer_same h rfl
    · rename_i record hfound
      have hrecord := Table.of_find? hfound
      rw [Bool.and_eq_true, Bool.and_eq_true, decide_eq_true_eq, decide_eq_true_eq,
        Option.isNone_iff_eq_none] at hrecord
      obtain ⟨⟨hkind, hhash⟩, hunused⟩ := hrecord
      have hlink : ∀ given usage, Call.verifyEmailWithToken token usageId = .verifyEmailWithToken given usage →
          record.credentialKind = .link ∧ record.tokenHash = platform.hashToken given := by
        rintro given usage ⟨⟩
        exact ⟨hkind, hhash⟩
      split_ifs at h
      · exact answer_same h rfl
      · split at h
        · exact answer_same h rfl
        · rename_i user huser
          obtain ⟨hmem, hactive, -⟩ := of_findById huser
          dsimp only at h
          split_ifs at h with hfirst
          · rw [Option.isNone_iff_eq_none] at hfirst
            refine verifyWith_answer ⟨hmem, hactive, ?_⟩ ?_ ?_ (fun _ => hfirst) (Table.mem_of_find? hfound) hunused
              hlink ⟨rfl, rfl⟩ h
            · exact (grantLocalRegistrationBonus_account _ _ _ _).1
            · obtain ⟨-, hdeleted, hsalt, hhash, -⟩ := grantLocalRegistrationBonus_account s.store.usageEvents _ now usageId
              exact ⟨hdeleted, hsalt, hhash⟩
            · rw [(grantLocalRegistrationBonus_account _ _ _ _).2.2.2.2, hfirst]
              rfl
          · have hafter : OnAccount s user
                { user with
                  emailVerifiedAt := user.emailVerifiedAt <|> some now, emailVerificationPending := false } :=
              ⟨hmem, hactive, rfl⟩
            refine verifyWith_answer hafter ⟨rfl, rfl, rfl⟩ ?_ (fun hsame => absurd rfl hsame)
              (Table.mem_of_find? hfound) hunused hlink ⟨rfl, rfl⟩ h
            rw [Option.isNone_iff_eq_none] at hfirst
            obtain ⟨verifiedAt, hverified⟩ := Option.ne_none_iff_exists'.mp hfirst
            dsimp only
            rw [hverified]
            rfl

theorem verifyEmailWithCode_answer {email code : Text} {usageId : String}
    (h : verifyEmailWithCode platform now email code usageId s.store = (store, outcome)) :
    Answer platform now s (.verifyEmailWithCode email code usageId) store s.logins outcome := by
  unfold verifyEmailWithCode at h
  dsimp only at h
  split at h
  · exact answer_same h rfl
  · rename_i user huser
    obtain ⟨hmem, hactive⟩ := of_findByEmail huser
    split_ifs at h with hcode hfirst
    · exact answer_same h rfl
    · exact answer_same h rfl
    · split at h
      · exact answer_same h rfl
      · rename_i record hfound
        have hrecord := List.mem_filter.mp (mem_of_newest hfound)
        rw [Bool.and_eq_true, Option.isNone_iff_eq_none] at hrecord
        obtain ⟨hrecord, -, hunused⟩ := hrecord
        rw [Bool.not_eq_true, Option.isSome_eq_false_iff, Option.isNone_iff_eq_none] at hfirst
        split at h
        · exact answer_same h rfl
        · rename_i hopen
          split at h
          · exact answer_same h rfl
          · split at h
            · cases h
              exact Answer.mismatched hrecord (by omega)
            · refine verifyWith_answer ⟨hmem, hactive, ?_⟩ ?_ ?_ (fun _ => hfirst) hrecord hunused ?_ ⟨rfl, rfl⟩ h
              · exact (grantLocalRegistrationBonus_account _ _ _ _).1
              · obtain ⟨-, hdeleted, hsalt, hhash, -⟩ :=
                  grantLocalRegistrationBonus_account s.store.usageEvents _ now usageId
                exact ⟨hdeleted, hsalt, hhash⟩
              · rw [(grantLocalRegistrationBonus_account _ _ _ _).2.2.2.2]
                rfl
              · rintro _ _ ⟨⟩

theorem deleteAccount_answer {userId : UserId} {password salt : Text}
    (h : deleteAccount platform now userId password salt s.store = (store, outcome)) :
    Answer platform now s (.deleteAccount userId password salt) store s.logins outcome := by
  unfold deleteAccount at h
  split at h
  · exact answer_same h rfl
  · rename_i user huser
    obtain ⟨hmem, hactive, rfl⟩ := of_findById huser
    cases h
    exact Answer.deleted ⟨hmem, hactive, rfl⟩ rfl

/-- Whatever is called, the store and the logins are an answer. -/
theorem answer_spec {call : Call} (h : answer platform now s call = some (store, logins, outcome)) :
    Answer platform now s call store logins outcome := by
  cases call with
  | registerUser =>
    cases h
    exact registerUser_answer rfl
  | loginUser => exact loginUser_answer h
  | settleLogin => exact settleLogin_answer h
  | createSession => exact createSession_answer h
  | getUserBySessionToken =>
    cases h
    exact getUserBySessionToken_answer rfl
  | changePassword =>
    cases h
    exact changePassword_answer rfl
  | requestPasswordReset =>
    cases h
    exact requestPasswordReset_answer rfl
  | resetPasswordWithToken =>
    cases h
    exact resetPasswordWithToken_answer rfl
  | requestEmailVerification =>
    cases h
    exact requestEmailVerification_answer rfl
  | verifyEmailWithToken =>
    cases h
    exact verifyEmailWithToken_answer rfl
  | verifyEmailWithCode =>
    cases h
    exact verifyEmailWithCode_answer rfl
  | deleteAccount =>
    cases h
    exact deleteAccount_answer rfl

/-- What a step is: fresh draws, and an answer. -/
theorem step_cases {t : System} {label : Label} (h : Step platform s label t) :
    (label.call.ids ++ s.ids).Nodup ∧ (label.call.tokens ++ s.tokens).Nodup ∧
      Answer platform label.now s label.call t.store t.logins label.outcome ∧
      t.ids = label.call.ids ++ s.ids ∧ t.tokens = label.call.tokens ++ s.tokens := by
  unfold Step step at h
  split_ifs at h with hfresh
  split at h
  · rename_i store logins outcome hanswer
    split_ifs at h with houtcome
    cases h
    refine ⟨hfresh.1, hfresh.2, ?_, rfl, rfl⟩
    rw [← houtcome]
    exact answer_spec hanswer
  · cases h

end OwnMinutes.Auth.CredentialSteps
