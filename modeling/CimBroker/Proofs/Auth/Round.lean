import CimBroker.Proofs.Auth.SingleUse
import CimBroker.Proofs.Auth.Challenge
import CimBroker.Proofs.Auth.ClientRound
import CimBroker.Proofs.Files.Root
import CimBroker.Proofs.Stream.Records
import CimBroker.Proofs.Text.Base64

/-!
# Client and server complete their rounds

The two sides of authentication meet only in texts: a challenge the server
writes and the client reads, and a credential the client writes and the
server reads. This module shows that the texts each side writes are read by
the other as meant, so a round started by a well-configured client against a
well-configured server ends with the user authenticated.

* `Basic`: the challenge `Basic realm="..."` is read back as written when the
  realm is not empty and has no double quote; the token is base64 of
  `user:password`, which reads back to those bytes, and the user runs to the
  first colon.
* `Local`: the client asks with `Local "user"`, the server writes a secret to
  a new file in its trusted directory and challenges with the file's path; the
  path lies in the client's trusted directory when the two directories are
  one path, and the client answers `Local "user:file:secret"`, which names
  the pending entry as long as no request in between asked for a secret for
  the user or presented the path, and it has not expired.

The `Local` round rests on an invariant of the table along the requests in
between (`Authenticator.Sole.after`): the entry issued stays pending and is
the only one of its user or at its path. Secret files are well named, so an
entry issued to another user is at another path (`WellNamed.user_eq`).

## Main results

* `Authenticator.checkBasic_encode` — `Basic` credentials of a user authenticate it.
* `Authenticator.Sole.after` — the issued entry survives the requests in between.
* `BasicSetting.round`, `LocalSetting.round` — the two rounds.
* `rounds_complete` — both together.
-/

namespace CimBroker.Auth

open Text

/-! ## Texts that survive trimming -/

/-- A text without blanks is its own `trim`. -/
theorem trim_of_not_blank {s : String} (h : ∀ x ∈ s.toList, isBlank x = false) : trim s = s := by
  have hstart : trimStart s = s := trimStart_of_head fun x hx => h x (List.mem_of_mem_head? hx)
  have hend : s.toList.reverse.dropWhile isBlank = s.toList.reverse :=
    dropWhile_isBlank_of_head fun x hx => h x (List.mem_reverse.1 (List.mem_of_mem_head? hx))
  rw [trim, hstart, trimEnd, hend, List.reverse_reverse, String.ofList_toList]

/-! ## The challenge -/

theorem basicChallenge_parse {a : Authenticator} (hrealm : a.config.realm ≠ "")
    (hquote : '"' ∉ a.config.realm.toList) : Challenge.parse a.basicChallenge = .ok ⟨"Basic", a.config.realm⟩ :=
  Challenge.parse_toHeaderValue_of_wellFormed ⟨by simp, by simp, by simp [isBlank], hrealm, hquote⟩

theorem localChallenge_parse {file : String} (hne : file ≠ "") (hquote : '"' ∉ file.toList) :
    Challenge.parse (Challenge.mk "Local" file).toHeaderValue = .ok ⟨"Local", file⟩ :=
  Challenge.parse_toHeaderValue_of_wellFormed ⟨by simp, by simp, by simp [isBlank], hne, hquote⟩

/-! ## The client's side -/

namespace Client

variable {c : Client} {fs : Files.Store} {login : String}

/-- A client that has followed no challenge follows a `Basic` one. -/
theorem check_basic {header realm : String} (hc : c.challengeReceived = false)
    (hp : Challenge.parse header = .ok ⟨"Basic", realm⟩) :
    c.check header = .ok (true, { c with scheme := .basic, realm := some realm, challengeReceived := true }) := by
  simp [check, followChallenge_run, hc, hp, Scheme.ofName?]

/-- A client that has followed no challenge follows a `Local` one whose file
lies in its trusted directory, and forgets any secret read before. -/
theorem check_local {header file : String} (hc : c.challengeReceived = false)
    (hp : Challenge.parse header = .ok ⟨"Local", file⟩) (hparent : Files.parentIs file c.trustedDir = true) :
    c.check header = .ok (true, { c with
      secretFile := some file, secret := none, scheme := .sameHost, realm := some file,
      challengeReceived := true }) := by
  simp [check, followChallenge_run, hc, hp, Scheme.ofName?, hparent]

/-- The `Basic` credential: base64 of `user:password`. -/
theorem requestHeader_basic (hs : c.scheme = .basic) :
    (c.requestHeader fs login).1 =
      some (authorizationHeader, "Basic " ++ Base64.encode (c.user.getD "" ++ ":" ++ c.password.getD "").toUTF8.toList) := by
  simp [requestHeader, hs]

/-- Before a `Local` challenge is followed, the credential asks for a secret. -/
theorem requestHeader_ask (hs : c.scheme = .sameHost) (hc : c.challengeReceived = false) :
    c.requestHeader fs login = (some (localAuthorizationHeader, "Local \"" ++ c.user.getD login ++ "\""), c) := by
  simp [requestHeader, hs, hc]

/-- After a `Local` challenge is followed, the credential presents the file
and the secret read from it. -/
theorem requestHeader_redeem {file : String} (hs : c.scheme = .sameHost) (hc : c.challengeReceived = true)
    (hf : c.secretFile = some file) (hsecret : c.secret = none) :
    (c.requestHeader fs login).1 = some (localAuthorizationHeader,
      "Local \"" ++ c.user.getD login ++ ":" ++ file ++ ":" ++ readSecret fs file ++ "\"") := by
  simp [requestHeader, hs, hc, hf, hsecret]

/-- A file that holds no line break is read as it is. -/
theorem readSecret_of_readRegular {path content : String} (h : fs.readRegular path = .ok content)
    (hbreak : ∀ x ∈ content.toList, x ≠ '\r' ∧ x ≠ '\n') : readSecret fs path = content := by
  have hkeep : content.toList.reverse.dropWhile (fun x => x = '\r' ∨ x = '\n') = content.toList.reverse := by
    cases hrev : content.toList.reverse with
    | nil => rfl
    | cons x xs =>
      have hx := hbreak x (List.mem_reverse.1 (by simp [hrev]))
      exact List.dropWhile_cons_of_neg (by simpa using hx)
  rw [readSecret, h]
  simp only [hkeep, List.reverse_reverse, String.ofList_toList]

end Client

/-! ## The server's side of `Basic` -/

theorem find?_of_lookup {users : List (String × String)} {user password : String}
    (h : users.lookup user = some password) : users.find? (·.1 = user) = some (user, password) := by
  induction users with
  | nil => simp at h
  | cons entry users ih =>
    obtain ⟨k, v⟩ := entry
    by_cases hk : k = user
    · subst hk
      simp only [List.lookup_cons, beq_self_eq_true, Option.some.injEq] at h
      simp [h]
    · have hk' : (user == k) = false := by simpa using Ne.symm hk
      simp only [List.lookup_cons, hk'] at h
      simp [hk, ih h]

theorem toUTF8_toList (s : String) : s.toUTF8.toList = Stream.ClassRecord.utf8 s := by
  -- `ByteArray.toList` runs a loop over the bytes; it collects them in order
  have hloop : ∀ (bs : ByteArray) (i : Nat) (r : List UInt8),
      ByteArray.toList.loop bs i r = r.reverse ++ bs.data.toList.drop i := by
    intro bs i r
    fun_induction ByteArray.toList.loop bs i r with
    | case1 i r hlt ih =>
      have hi : i < bs.data.toList.length := by simpa using hlt
      rw [ih, List.drop_eq_getElem_cons hi]
      simp [ByteArray.get!, hlt]
    | case2 i r hge =>
      rw [List.drop_eq_nil_of_le (by simpa using Nat.le_of_not_lt hge)]
      simp
  rw [ByteArray.toList, hloop, Stream.ClassRecord.utf8]
  simp

namespace Authenticator

variable {a : Authenticator} {fs : Files.Store} {now : Nat}

/-- Without credentials, a server taking `Basic` challenges for it. -/
theorem authenticate_none (hen : a.config.enabled = true) (hb : a.config.basic = true) :
    a.authenticate fs now none none = .ok (.challenge a.basicChallenge, a, fs) := by
  simp [authenticate, hen, hb]

/-- A `Basic` credential whose token has no blanks is checked as it is. -/
theorem authenticate_basic {token : String} (hen : a.config.enabled = true) (hb : a.config.basic = true)
    (htoken : ∀ x ∈ token.toList, isBlank x = false) :
    a.authenticate fs now (some ("Basic " ++ token)) none = .ok (a.checkBasic token, a, fs) := by
  have hstart : trimStart ("Basic " ++ token) = "Basic " ++ token :=
    trimStart_of_head (by simp [isBlank])
  have hsplit : splitFirst ("Basic " ++ token) ' ' = some ("Basic", token) :=
    splitFirst_eq_some_iff.2 ⟨by simp, by decide⟩
  simp [authenticate, hen, hb, hstart, hsplit, trim_of_not_blank htoken]

/-- **`Basic` credentials of a user authenticate it**: base64 of
`user:password`, for a user whose name has no colon and whose password is
`password`. -/
theorem checkBasic_encode {user password : String}
    (hfind : a.config.users.find? (·.1 = user) = some (user, password)) (huser : ':' ∉ user.toList) :
    a.checkBasic (Base64.encode (user ++ ":" ++ password).toUTF8.toList) = .authenticated user .basic := by
  have hsplit : splitFirst (user ++ ":" ++ password) ':' = some (user, password) :=
    splitFirst_eq_some_iff.2 ⟨by simp, huser⟩
  rw [checkBasic, toUTF8_toList, Base64.decode_encode]
  simp [Stream.ClassRecord.fromUTF8?_utf8, hsplit, hfind]

end Authenticator

/-! ## What a `Local` round writes -/

/-- A plain user name holds none of the characters a plain name leaves out. -/
theorem not_mem_of_isPlainUserName {user : String} (h : isPlainUserName user = true) {x : Char}
    (hx : (x.isAlphanum || x = '-' || x = '_' || x = '.') = false) : x ∉ user.toList := by
  simp only [isPlainUserName, Bool.and_eq_true, List.all_eq_true] at h
  intro hmem
  have hplain := h.2 x hmem
  rw [hx] at hplain
  cases hplain

/-- Random characters are letters and digits. -/
theorem Entropy.chars_alphanumeric : ∀ (n : Nat) (e : Entropy),
    (Entropy.chars n e).1.length = n ∧ ∀ x ∈ (Entropy.chars n e).1, x ∈ Entropy.alphanumeric
  | 0, e => by simp [Entropy.chars]
  | n + 1, e => by
    obtain ⟨hlen, hmem⟩ := chars_alphanumeric n e.next.2
    have hpick : Entropy.alphanumeric.getD (e.next.1.toNat % 62) 'A' ∈ Entropy.alphanumeric := by
      rw [List.getD_eq_getElem?_getD]
      cases hget : Entropy.alphanumeric[e.next.1.toNat % 62]? with
      | none => decide
      | some x => exact List.mem_of_getElem? hget
    refine ⟨by simp [Entropy.chars, hlen], ?_⟩
    simp only [Entropy.chars, List.mem_cons]
    rintro x (rfl | hx)
    · exact hpick
    · exact hmem x hx

/-- A secret is 32 letters and digits. -/
theorem Entropy.secret_alphanumeric (e : Entropy) :
    e.secret.1 ≠ "" ∧ ∀ x ∈ e.secret.1.toList, x ∈ Entropy.alphanumeric := by
  obtain ⟨hlen, hmem⟩ := Entropy.chars_alphanumeric 32 e
  refine ⟨fun h => ?_, by simpa [Entropy.secret] using hmem⟩
  have hnil := congrArg String.toList h
  simp only [Entropy.secret, String.toList_ofList, String.toList_empty] at hnil
  simp [hnil] at hlen

/-- No character that the texts of a round use as a separator is a letter or digit. -/
theorem not_mem_alphanumeric : '"' ∉ Entropy.alphanumeric ∧ ':' ∉ Entropy.alphanumeric ∧
    '\r' ∉ Entropy.alphanumeric ∧ '\n' ∉ Entropy.alphanumeric := by
  decide

/-- A secret is not empty, and holds no double quote, colon or line break. -/
theorem Entropy.secret_chars (e : Entropy) :
    e.secret.1 ≠ "" ∧ '"' ∉ e.secret.1.toList ∧ ':' ∉ e.secret.1.toList ∧
      ∀ x ∈ e.secret.1.toList, x ≠ '\r' ∧ x ≠ '\n' := by
  obtain ⟨hne, halnum⟩ := Entropy.secret_alphanumeric e
  obtain ⟨hquote, hcolon, hcr, hlf⟩ := not_mem_alphanumeric
  refine ⟨hne, fun hx => hquote (halnum _ hx), fun hx => hcolon (halnum _ hx), fun x hx => ⟨?_, ?_⟩⟩
  · rintro rfl
    exact hcr (halnum _ hx)
  · rintro rfl
    exact hlf (halnum _ hx)

/-- The name of a secret file, `cimb-local-<user>-<digits>`, is one component
holding no double quote. -/
theorem secretName_facts {user : String} {digits : List Char} (hplain : isPlainUserName user = true)
    (hdigits : ∀ x ∈ digits, x ∈ "0123456789abcdef".toList) :
    '/' ∉ ("cimb-local-" ++ user ++ "-" ++ String.ofList digits).toList ∧
      '"' ∉ ("cimb-local-" ++ user ++ "-" ++ String.ofList digits).toList ∧
      "cimb-local-" ++ user ++ "-" ++ String.ofList digits ≠ "" ∧
      "cimb-local-" ++ user ++ "-" ++ String.ofList digits ≠ "." ∧
      "cimb-local-" ++ user ++ "-" ++ String.ofList digits ≠ ".." := by
  have hslash : '/' ∉ digits := fun hx => absurd (hdigits '/' hx) (by decide)
  have hquote : '"' ∉ digits := fun hx => absurd (hdigits '"' hx) (by decide)
  -- the name starts with `c`, so it is none of the dot names
  have hhead : ∀ t : String, t.toList.head? ≠ some 'c' →
      "cimb-local-" ++ user ++ "-" ++ String.ofList digits ≠ t := by
    rintro t ht rfl
    simp at ht
  refine ⟨by simp [not_mem_of_isPlainUserName hplain (x := '/') (by decide), hslash],
    by simp [not_mem_of_isPlainUserName hplain (x := '"') (by decide), hquote],
    hhead "" (by decide), hhead "." (by decide), hhead ".." (by decide)⟩

namespace Authenticator

/-- A well-named path is a name of one component, without a double quote,
joined to the trusted directory. -/
theorem WellNamed.name {config : AuthConfig} {e : Issued} (h : WellNamed config e) :
    ∃ name, e.path = Files.join config.trustedDir name ∧ '/' ∉ name.toList ∧ '"' ∉ name.toList ∧
      name ≠ "" ∧ name ≠ "." ∧ name ≠ ".." := by
  obtain ⟨hplain, digits, -, hdigits, hpath⟩ := h
  exact ⟨_, hpath, secretName_facts hplain hdigits⟩

/-- **Well-named entries at one path are of one user**: the user is read back
from the file name, between the prefix and the sixteen digits. -/
theorem WellNamed.user_eq {config : AuthConfig} {e e' : Issued} (h : WellNamed config e)
    (h' : WellNamed config e') (hsame : Files.samePath e.path e'.path = true) : e.user = e'.user := by
  obtain ⟨hplain, digits, hlen, hdigits, hpath⟩ := h
  obtain ⟨hplain', digits', hlen', hdigits', hpath'⟩ := h'
  obtain ⟨hs, -, hne, hdot, hdotdot⟩ := secretName_facts hplain hdigits
  obtain ⟨hs', -, hne', hdot', hdotdot'⟩ := secretName_facts hplain' hdigits'
  rw [hpath, hpath'] at hsame
  have hname := congrArg String.toList
    (Files.eq_of_samePath_join hs hne hdot hdotdot hs' hne' hdot' hdotdot' hsame)
  simp only [String.toList_append, String.toList_ofList, List.append_assoc, List.append_cancel_left_eq] at hname
  -- the digits after the user have one length, so the users are cut at one place
  have huser := (List.append_inj' hname (by simp [hlen, hlen'])).1
  exact String.toList_inj.1 huser

/-! ## The server's side of `Local` -/

/-- A `Local` credential is `Local "content"`. -/
theorem localContent_quoted {content : String} (h : '"' ∉ content.toList) :
    LocalContent ("Local \"" ++ content ++ "\"") content := by
  have hstart : trimStart ("Local \"" ++ content ++ "\"") = "Local \"" ++ content ++ "\"" :=
    trimStart_of_head (by simp [isBlank])
  exact ⟨[' '], [], by simp [hstart], by decide, h⟩

/-- The credential `Local "user:file:secret"` redeems `secret` from `file`
for `user` when no part holds a double quote and neither the user nor the
secret a colon. -/
theorem redeems_quoted {user file secret : String} (huser : '"' ∉ user.toList ∧ ':' ∉ user.toList)
    (hfile : '"' ∉ file.toList) (hsecret : '"' ∉ secret.toList ∧ ':' ∉ secret.toList) :
    Redeems ("Local \"" ++ user ++ ":" ++ file ++ ":" ++ secret ++ "\"") user file secret := by
  have hcontent : '"' ∉ (user ++ ":" ++ file ++ ":" ++ secret).toList := by
    simp only [String.toList_append, List.mem_append, not_or]
    exact ⟨⟨⟨⟨huser.1, by decide⟩, hfile⟩, by decide⟩, hsecret.1⟩
  refine ⟨?_, huser.2, hsecret.2⟩
  simpa only [String.append_assoc] using localContent_quoted hcontent

theorem isKnownUser_of_mem {a : Authenticator} {user : String}
    (h : a.config.users = [] ∨ ∃ password, (user, password) ∈ a.config.users) : a.isKnownUser user = true := by
  rcases h with hnil | ⟨password, hmem⟩
  · simp [isKnownUser, hnil]
  · simp only [isKnownUser, Bool.or_eq_true, List.any_eq_true, decide_eq_true_eq]
    exact Or.inr ⟨_, hmem, rfl⟩

variable {a : Authenticator} {fs : Files.Store} {now : Nat}

theorem authenticate_local {authorization : Option String} {v : String} (hen : a.config.enabled = true)
    (hsh : a.config.sameHost = true) : a.authenticate fs now authorization (some v) = a.checkLocal fs now v := by
  simp [authenticate, hen, hsh]

/-- **A request for a secret with room for it** is answered by the `Local`
challenge naming the new file, and the new entry joins the survivors not at
its path. -/
theorem issue_of_room {fs₁ : Files.Store} {user : String} (hplain : isPlainUserName user = true)
    (hknown : a.isKnownUser user = true)
    (hcreate : fs.createNew (a.secretFile user) a.entropy.secret.1 = .ok fs₁)
    (hroom : (a.survivors now user).length < a.config.maxPending) :
    ∃ a', a.issue fs now user = .ok (localChallenge (a.secretFile user), a', removeFiles fs₁ (a.stale now user)) ∧
      a'.issued = (a.survivors now user).filter (!Files.samePath ·.path (a.secretFile user)) ++
        [⟨a.secretFile user, user, a.entropy.secret.1, now⟩] := by
  simp only [secretFile] at hcreate
  simp only [survivors, takeExpired_issued] at hroom
  -- both sides read the table through `takeExpired`; normalise them to filters of `a.issued`
  simp only [issue, localChallenge, secretFile, stale, survivors, takeExpired_issued, takeExpired_paths,
    takeExpired_config, hplain, hknown, hcreate, Bool.and_self, Bool.not_true, Bool.false_eq_true, if_false]
  rw [if_neg (by omega)]
  exact ⟨_, rfl, rfl⟩

/-! ## The entry between issue and redemption -/

/-- **What a request keeps**: a live, well-named entry survives a request
that does not ask for a secret for its user and does not present its path. -/
theorem authenticate_keeps {a' : Authenticator} {fs' : Files.Store} {authorization localAuthorization : Option String}
    {o : Outcome} {e : Issued} (h : a.authenticate fs now authorization localAuthorization = .ok (o, a', fs'))
    (he : e ∈ a.issued) (hwell : WellNamed a.config e) (hlive : now - e.issuedAt < a.config.ttl)
    (hask : ¬ ∃ v, localAuthorization = some v ∧ AsksSecret v e.user)
    (hpresent : ¬ ∃ v user file secret, localAuthorization = some v ∧ Redeems v user file secret ∧
      Files.samePath file e.path = true) : e ∈ a'.issued := by
  rcases authenticate_cases a fs now authorization localAuthorization with ⟨o', ho, -⟩ | ⟨v, hv, -, -, ho⟩
  · rw [ho] at h
    cases h
    exact he
  rw [ho] at h
  rcases checkLocal_cases a fs now v with hc | ⟨user, hasks, hc⟩ | ⟨user, file, secret, hred, hc⟩
  · rw [hc] at h
    cases h
    exact he
  · -- an issue to another user keeps the live entries of other users at other paths
    rw [hc] at h
    have hother : e.user ≠ user := fun heq => hask ⟨v, hv, heq ▸ hasks⟩
    have hsurv : e ∈ a.survivors now user := by
      simp only [survivors, takeExpired_issued, List.mem_filter, decide_eq_true_eq]
      exact ⟨⟨he, hlive⟩, hother⟩
    rcases issue_eq_ok h with ⟨-, rfl, -⟩ | ⟨hplain, -, -, fs₁, -, ⟨-, -, hissued, -⟩ | ⟨-, -, hissued, -⟩⟩
    · exact he
    · exact hissued ▸ hsurv
    · have hpath : Files.samePath e.path (a.secretFile user) = false := by
        cases hsame : Files.samePath e.path (a.secretFile user) with
        | false => rfl
        | true => exact absurd (hwell.user_eq (wellNamed_secretFile a hplain now) hsame) hother
      rw [hissued]
      exact List.mem_append_left _ (List.mem_filter.2 ⟨hsurv, by simp [hpath]⟩)
  · -- a redemption of another path keeps the live entries
    rw [hc] at h
    obtain ⟨-, rfl⟩ := eq_redeem_of_ok h
    have hpath : Files.samePath e.path file = false := by
      cases hsame : Files.samePath e.path file with
      | false => rfl
      | true => exact absurd ⟨v, user, file, secret, hv, hred, by rw [Files.samePath_comm, hsame]⟩ hpresent
    exact mem_redeem_issued.2 ⟨he, hlive, hpath⟩

theorem serve_keeps {r : Request} {e : Issued} (he : e ∈ a.issued) (hwell : WellNamed a.config e)
    (hlive : r.now - e.issuedAt < a.config.ttl) (hask : ¬ r.Asks e.user) (hpresent : ¬ r.Presents e.path) :
    e ∈ (a.serve r).2.issued := by
  rcases serve_cases a r with ⟨err, hs⟩ | ⟨o, fs', -, h⟩
  · rw [hs]
    exact he
  · exact authenticate_keeps h he hwell hlive hask hpresent

/-- An entry after a request was there before, or the request asked for a
secret for its user and the entry is well named. -/
theorem serve_mem_wellNamed {r : Request} {e : Issued} (he : e ∈ (a.serve r).2.issued) :
    e ∈ a.issued ∨ (r.Asks e.user ∧ WellNamed a.config e) := by
  rcases serve_mem he with ⟨hold, -⟩ | hhands
  · exact Or.inl hold
  rcases serve_cases a r with ⟨err, hs⟩ | ⟨o, fs', -, h⟩
  · rw [hs] at he
    exact Or.inl he
  rcases authenticate_table h with hsub | ⟨user, hplain, -, hissued⟩
  · exact Or.inl (hsub.subset he)
  rw [hissued, List.mem_append, List.mem_singleton] at he
  rcases he with he | rfl
  · exact Or.inl ((survivors_sublist _ _ _).subset (List.mem_filter.1 he).1)
  · have hwell := wellNamed_secretFile { a with entropy := r.entropy } hplain r.now
    exact Or.inr ⟨hhands.asks, hwell⟩

/-- The entry `e₀` is pending, and no other entry is of its user or at its
path. -/
def Sole (e₀ : Issued) (a : Authenticator) : Prop :=
  e₀ ∈ a.issued ∧ ∀ e ∈ a.issued, (e.user = e₀.user ∨ Files.samePath e.path e₀.path = true) → e = e₀

/-- **One request keeps a well-named entry sole**, when it is live, and the
request does not ask for a secret for its user or present its path: a new
entry is of another user, so at another path. -/
theorem Sole.serve {e₀ : Issued} {r : Request} (h : Sole e₀ a) (hwell : WellNamed a.config e₀)
    (hlive : r.now - e₀.issuedAt < a.config.ttl) (hask : ¬ r.Asks e₀.user) (hpresent : ¬ r.Presents e₀.path) :
    Sole e₀ (a.serve r).2 := by
  refine ⟨serve_keeps h.1 hwell hlive hask hpresent, fun e he hclash => ?_⟩
  rcases serve_mem_wellNamed he with hold | ⟨hasks, hwell'⟩
  · exact h.2 e hold hclash
  · have hother : e.user ≠ e₀.user := fun heq => hask (heq ▸ hasks)
    rcases hclash with huser | hsame
    · exact absurd huser hother
    · exact absurd (hwell'.user_eq hwell hsame) hother

/-- **The entry stays sole along the requests in between**, each live for it,
none asking for a secret for its user or presenting its path. -/
theorem Sole.after {e₀ : Issued} : ∀ {a : Authenticator} {rs : List Request}, Sole e₀ a → WellNamed a.config e₀ →
    (∀ r ∈ rs, r.now - e₀.issuedAt < a.config.ttl ∧ ¬ r.Asks e₀.user ∧ ¬ r.Presents e₀.path) →
    Sole e₀ (a.after rs)
  | _, [], h, _, _ => h
  | a, r :: rs, h, hwell, hrs => by
    obtain ⟨hlive, hask, hpresent⟩ := hrs r List.mem_cons_self
    have hconfig := serve_config a r
    rw [after_cons]
    exact Sole.after (h.serve hwell hlive hask hpresent) (hconfig ▸ hwell)
      (fun r' hr' => hconfig ▸ hrs r' (List.mem_cons_of_mem r hr'))

/-- **Redeeming the sole entry** with its own user, path and secret, while it
is live, authenticates its user, and afterwards no entry is of that user or
at that path. -/
theorem Sole.redeem {e₀ : Issued} (h : Sole e₀ a) (fs : Files.Store) (hlive : now - e₀.issuedAt < a.config.ttl)
    (hsecret : e₀.secret ≠ "") :
    (a.redeem fs now e₀.user e₀.path e₀.secret).1 = .authenticated e₀.user .sameHost ∧
      ∀ e ∈ (a.redeem fs now e₀.user e₀.path e₀.secret).2.1.issued,
        e.user ≠ e₀.user ∧ Files.samePath e.path e₀.path = false := by
  have hlive₀ : e₀ ∈ (a.takeExpired now).2.issued := by
    simp only [takeExpired_issued, List.mem_filter, decide_eq_true_eq]
    exact ⟨h.1, hlive⟩
  -- the first live entry at the path is the sole one
  have hfind : (a.takeExpired now).2.issued.find? (Files.samePath ·.path e₀.path) = some e₀ := by
    cases hf : (a.takeExpired now).2.issued.find? (Files.samePath ·.path e₀.path) with
    | none => exact absurd (Files.samePath_self e₀.path) (List.find?_eq_none.1 hf e₀ hlive₀)
    | some e =>
      have hmem : e ∈ a.issued := by
        have := List.mem_of_find?_eq_some hf
        simp only [takeExpired_issued, List.mem_filter] at this
        exact this.1
      have hsame := List.find?_some hf
      rw [h.2 e hmem (Or.inr hsame)]
  refine ⟨?_, fun e he => ?_⟩
  · -- inside `Sole.redeem`, the plain name `redeem` is this theorem
    unfold Authenticator.redeem
    simp only [hfind, hsecret, ne_eq, not_false_eq_true, and_self, if_true]
  · obtain ⟨hmem, -, hpath⟩ := mem_redeem_issued.1 he
    refine ⟨fun huser => ?_, hpath⟩
    rw [h.2 e hmem (Or.inl huser), Files.samePath_self] at hpath
    cases hpath

end Authenticator

/-! ## The two rounds -/

/-- The setting of a `Basic` round: a server that takes `Basic` credentials,
under a realm a challenge can carry, and knows `user` with `password`, a user
whose name has no colon; a client that has followed no challenge, new or just
cleared. -/
structure BasicSetting (S : Authenticator) (c : Client) (user password : String) : Prop where
  enabled : S.config.enabled = true
  basic : S.config.basic = true
  realm_ne : S.config.realm ≠ ""
  realm_unquoted : '"' ∉ S.config.realm.toList
  password_eq : S.config.users.lookup user = some password
  user_uncolon : ':' ∉ user.toList
  fresh : c.challengeReceived = false

/-- A `Basic` round completes, whatever the files and the times: the server
challenges a request without credentials, the client given `user` and
`password` follows the challenge, and the server authenticates `user` by the
credential the client then builds. -/
def BasicRound (S : Authenticator) (c : Client) (user password : String) : Prop :=
  ∀ (fs fs' fsC : Files.Store) (now now' : Nat) (login : String),
    ∃ ch, S.authenticate fs now none none = .ok (.challenge ch, S, fs) ∧
      ∃ c₂, (c.setCredentials user password).check ch = .ok (true, c₂) ∧
        ∃ value, (c₂.requestHeader fsC login).1 = some (authorizationHeader, value) ∧
          S.authenticate fs' now' (some value) none = .ok (.authenticated user .basic, S, fs')

theorem BasicSetting.round {S : Authenticator} {c : Client} {user password : String}
    (h : BasicSetting S c user password) : BasicRound S c user password := by
  intro fs fs' fsC now now' login
  refine ⟨_, Authenticator.authenticate_none h.enabled h.basic, _,
    Client.check_basic h.fresh (basicChallenge_parse h.realm_ne h.realm_unquoted), _,
    Client.requestHeader_basic rfl, ?_⟩
  -- a base64 token has no blank, so the server checks it as sent
  rw [Authenticator.authenticate_basic h.enabled h.basic fun x hx => Base64.isBlank_of_mem_encode hx]
  simp only [Client.setCredentials, Option.getD_some,
    Authenticator.checkBasic_encode (find?_of_lookup h.password_eq) h.user_uncolon]

/-- The setting of a `Local` round, asked for at time `now₁` and redeemed at
`now₂`, with the requests `rs` in between: a server that takes `Local`
credentials and knows `user`, a plain user name, whose trusted directory has
no double quote, and with fewer than `maxPending` secrets of other users
pending; the secret file can be created in the server's files `fs`, and reads
back in the client's files `fsC`; a client that has followed no challenge,
whose trusted directory is the server's as a path; the redemption comes
before the secret expires, and no request in between, all made before it,
asks for a secret for `user` or presents the secret file. -/
structure LocalSetting (S : Authenticator) (c : Client) (user : String) (fs fsC : Files.Store)
    (rs : List Request) (now₁ now₂ : Nat) : Prop where
  enabled : S.config.enabled = true
  sameHost : S.config.sameHost = true
  plain : isPlainUserName user = true
  known : S.config.users = [] ∨ ∃ password, (user, password) ∈ S.config.users
  dir_unquoted : '"' ∉ S.config.trustedDir.toList
  room : (S.issued.filter (·.user ≠ user)).length < S.config.maxPending
  creates : ∃ fs₁, fs.createNew (S.secretFile user) S.entropy.secret.1 = .ok fs₁
  reads : fsC.readRegular (S.secretFile user) = .ok S.entropy.secret.1
  fresh : c.challengeReceived = false
  trusts : Files.samePath c.trustedDir S.config.trustedDir = true
  in_time : now₂ - now₁ < S.config.ttl
  quiet : ∀ r ∈ rs, r.now ≤ now₂ ∧ ¬ r.Asks user ∧ ¬ r.Presents (S.secretFile user)

/-- A `Local` round completes: the client, set to `user` and `Local`, asks
for a secret; the server challenges with a secret file; the client follows
the challenge and builds the credential from the file; after the requests
`rs`, the server authenticates `user` by it, and no secret of `user` or at
that file is left pending. -/
def LocalRound (S : Authenticator) (c : Client) (user : String) (fs fsC : Files.Store) (rs : List Request)
    (now₁ now₂ : Nat) : Prop :=
  ∀ (fsC₀ fs₂ : Files.Store) (login : String),
    ∃ v₁, ((c.setUser user).setScheme .sameHost).requestHeader fsC₀ login =
        (some (localAuthorizationHeader, v₁), (c.setUser user).setScheme .sameHost) ∧
      ∃ ch S₁ fs₁, S.authenticate fs now₁ none (some v₁) = .ok (.challenge ch, S₁, fs₁) ∧
        ∃ c₂, ((c.setUser user).setScheme .sameHost).check ch = .ok (true, c₂) ∧
          ∃ v₂, (c₂.requestHeader fsC login).1 = some (localAuthorizationHeader, v₂) ∧
            ∃ S₂ fs₃, (S₁.after rs).authenticate fs₂ now₂ none (some v₂) =
                .ok (.authenticated user .sameHost, S₂, fs₃) ∧
              ∀ e ∈ S₂.issued, e.user ≠ user ∧ Files.samePath e.path (S.secretFile user) = false

namespace LocalSetting

variable {S : Authenticator} {c : Client} {user : String} {fs fsC : Files.Store} {rs : List Request}
  {now₁ now₂ : Nat}

open Authenticator

/-- The secret file has a name the challenge can carry, and lies in the
client's trusted directory. -/
theorem secretFile_facts (h : LocalSetting S c user fs fsC rs now₁ now₂) :
    S.secretFile user ≠ "" ∧ '"' ∉ (S.secretFile user).toList ∧
      Files.parentIs (S.secretFile user) c.trustedDir = true := by
  obtain ⟨name, hpath, hslash, hquote, hne, hdot, hdotdot⟩ := (wellNamed_secretFile S h.plain now₁).name
  simp only at hpath
  rw [hpath]
  refine ⟨Files.join_ne_empty hne, fun hmem => ?_, Files.parentIs_join hslash hne hdot hdotdot h.trusts⟩
  rcases Files.mem_join hmem with hx | hx | hx
  · exact h.dir_unquoted hx
  · cases hx
  · exact hquote hx

/-- **The server's answer to the request for a secret**: the `Local`
challenge naming the secret file, and a table in which the new entry is sole. -/
theorem ask (h : LocalSetting S c user fs fsC rs now₁ now₂) :
    ∃ S₁ fs₁, S.authenticate fs now₁ none (some ("Local \"" ++ user ++ "\"")) =
        .ok (localChallenge (S.secretFile user), S₁, fs₁) ∧ S₁.config = S.config ∧
      Sole ⟨S.secretFile user, user, S.entropy.secret.1, now₁⟩ S₁ := by
  obtain ⟨fs₁, hcreate⟩ := h.creates
  have hasks : AsksSecret ("Local \"" ++ user ++ "\"") user :=
    ⟨localContent_quoted (not_mem_of_isPlainUserName h.plain (by decide)),
      not_mem_of_isPlainUserName h.plain (by decide)⟩
  -- the survivors are live entries of other users
  have hroom : (S.survivors now₁ user).length < S.config.maxPending := by
    have hsub : List.Sublist (S.survivors now₁ user) (S.issued.filter (·.user ≠ user)) := by
      simp only [survivors, takeExpired_issued]
      exact List.filter_sublist.filter _
    exact lt_of_le_of_lt hsub.length_le h.room
  obtain ⟨S₁, hissue, hissued⟩ := issue_of_room h.plain (isKnownUser_of_mem h.known) hcreate hroom
  have hauth : S.authenticate fs now₁ none (some ("Local \"" ++ user ++ "\"")) =
      .ok (localChallenge (S.secretFile user), S₁, removeFiles fs₁ (S.stale now₁ user)) := by
    rw [authenticate_local h.enabled h.sameHost, checkLocal_of_asksSecret S fs now₁ hasks, hissue]
  refine ⟨S₁, _, hauth, authenticate_config hauth, ?_⟩
  refine ⟨by simp [hissued], fun e he hclash => ?_⟩
  rw [hissued, List.mem_append, List.mem_singleton] at he
  rcases he with he | rfl
  · -- a kept entry is of another user and not at the new path
    obtain ⟨hsurv, hpath⟩ := List.mem_filter.1 he
    have hother := user_ne_of_mem_survivors hsurv
    rcases hclash with huser | hsame
    · exact absurd huser hother
    · simp [hsame] at hpath
  · rfl

/-- **The client's credential after following the challenge** presents the
file and the secret written to it. -/
theorem follow (h : LocalSetting S c user fs fsC rs now₁ now₂) (login : String) :
    ∃ c₂, ((c.setUser user).setScheme .sameHost).check (Challenge.mk "Local" (S.secretFile user)).toHeaderValue =
        .ok (true, c₂) ∧
      (c₂.requestHeader fsC login).1 = some (localAuthorizationHeader,
        "Local \"" ++ user ++ ":" ++ S.secretFile user ++ ":" ++ S.entropy.secret.1 ++ "\"") := by
  obtain ⟨hne, hquote, hparent⟩ := h.secretFile_facts
  obtain ⟨-, -, -, hbreak⟩ := Entropy.secret_chars S.entropy
  refine ⟨_, Client.check_local h.fresh (localChallenge_parse hne hquote) hparent, ?_⟩
  rw [Client.requestHeader_redeem rfl rfl rfl rfl, Client.readSecret_of_readRegular h.reads hbreak]
  rfl

/-- **The redemption after the requests in between** authenticates the user
and leaves nothing of theirs pending. -/
theorem redeem (h : LocalSetting S c user fs fsC rs now₁ now₂) {S₁ : Authenticator} (fs₂ : Files.Store)
    (hconfig : S₁.config = S.config) (hsole : Sole ⟨S.secretFile user, user, S.entropy.secret.1, now₁⟩ S₁) :
    ∃ S₂ fs₃, (S₁.after rs).authenticate fs₂ now₂ none
        (some ("Local \"" ++ user ++ ":" ++ S.secretFile user ++ ":" ++ S.entropy.secret.1 ++ "\"")) =
        .ok (.authenticated user .sameHost, S₂, fs₃) ∧
      ∀ e ∈ S₂.issued, e.user ≠ user ∧ Files.samePath e.path (S.secretFile user) = false := by
  have hwell : WellNamed S₁.config ⟨S.secretFile user, user, S.entropy.secret.1, now₁⟩ :=
    hconfig ▸ wellNamed_secretFile S h.plain now₁
  have hafter := hsole.after hwell fun r hr => by
    obtain ⟨hle, hask, hpresent⟩ := h.quiet r hr
    have hlive : r.now - now₁ < S₁.config.ttl := by
      rw [hconfig]
      have := h.in_time
      omega
    exact ⟨hlive, hask, hpresent⟩
  have hconfig' : (S₁.after rs).config = S.config := (after_config S₁ rs).trans hconfig
  -- the credential reads as a redemption: none of its parts holds a quote, user and secret no colon
  obtain ⟨-, hquote, -⟩ := h.secretFile_facts
  obtain ⟨hsecret, hsquote, hscolon, -⟩ := Entropy.secret_chars S.entropy
  have hredeems := redeems_quoted
    ⟨not_mem_of_isPlainUserName h.plain (by decide), not_mem_of_isPlainUserName h.plain (by decide)⟩
    hquote ⟨hsquote, hscolon⟩
  obtain ⟨hauth, hgone⟩ := hafter.redeem fs₂ (by rw [hconfig']; exact h.in_time) hsecret
  simp only at hauth hgone
  refine ⟨_, ((S₁.after rs).redeem fs₂ now₂ user (S.secretFile user) S.entropy.secret.1).2.2, ?_, hgone⟩
  rw [authenticate_of_redeems (hconfig' ▸ h.enabled) (hconfig' ▸ h.sameHost) hredeems, ← hauth]

end LocalSetting

theorem LocalSetting.round {S : Authenticator} {c : Client} {user : String} {fs fsC : Files.Store}
    {rs : List Request} {now₁ now₂ : Nat} (h : LocalSetting S c user fs fsC rs now₁ now₂) :
    LocalRound S c user fs fsC rs now₁ now₂ := by
  intro fsC₀ fs₂ login
  obtain ⟨S₁, fs₁, hask, hconfig, hsole⟩ := h.ask
  obtain ⟨c₂, hcheck, hheader⟩ := h.follow login
  obtain ⟨S₂, fs₃, hredeem, hgone⟩ := h.redeem fs₂ hconfig hsole
  exact ⟨_, Client.requestHeader_ask rfl h.fresh, _, S₁, fs₁, hask, c₂, hcheck, _, hheader, S₂, fs₃, hredeem,
    hgone⟩

/-- **Client and server complete their rounds.** A `Basic` round completes in
every `Basic` setting, and a `Local` round in every `Local` setting. -/
theorem rounds_complete :
    (∀ (S : Authenticator) (c : Client) (user password : String),
      BasicSetting S c user password → BasicRound S c user password) ∧
    (∀ (S : Authenticator) (c : Client) (user : String) (fs fsC : Files.Store) (rs : List Request)
      (now₁ now₂ : Nat), LocalSetting S c user fs fsC rs now₁ now₂ → LocalRound S c user fs fsC rs now₁ now₂) :=
  ⟨fun _ _ _ _ h => h.round, fun _ _ _ _ _ _ _ _ h => h.round⟩

/-- The server of the examples: `Basic` and `Local` on, the one user `guest`
with password `guest-pw`, and its trusted directory at the root. -/
def guestServer : Authenticator :=
  Authenticator.new { enabled := true, users := [("guest", "guest-pw")], trustedDir := "/" } 7

/-- A `Basic` login of `guest` at time `1`. -/
def guestLogin : Request := ⟨some "Basic Z3Vlc3Q6Z3Vlc3QtcHc=", none, 1, ⟨[]⟩, ⟨0⟩⟩

/-- The `guest` server and a new client trusting the root make a `Local`
setting, asked for at time `0` with an empty store and redeemed at time `1`
from a client's store that holds the secret file, whatever quiet requests
come in between. -/
theorem guest_localSetting {rs : List Request}
    (hquiet : ∀ r ∈ rs, r.now ≤ 1 ∧ ¬ r.Asks "guest" ∧ ¬ r.Presents (guestServer.secretFile "guest")) :
    LocalSetting guestServer (Client.new "/") "guest" ⟨[]⟩
      ((⟨[]⟩ : Files.Store).put ["cimb-local-guest-" ++ hex16 guestServer.entropy.secret.2.nonce.1]
        (.file guestServer.entropy.secret.1)) rs 0 1 := by
  let name := "cimb-local-guest-" ++ hex16 guestServer.entropy.secret.2.nonce.1
  have hfile : guestServer.secretFile "guest" = "/" ++ name := by decide +kernel
  have hname : Files.RootName name := ⟨by decide +kernel, by decide +kernel, by decide +kernel,
    by decide +kernel, by decide +kernel, by decide +kernel, by decide +kernel⟩
  exact ⟨rfl, rfl, by decide +kernel, Or.inr ⟨_, List.mem_singleton_self _⟩, by decide +kernel, by decide +kernel,
    ⟨_, hfile ▸ Files.Store.createNew_root hname rfl _⟩,
    hfile ▸ Files.Store.readRegular_root hname (Files.Store.get?_put_self _ (by simp)),
    rfl, Files.samePath_self "/", by decide, hquiet⟩

/-- Both rounds complete for the `guest` server and a new client trusting
the root: the secret file is created in an empty store, the client's store
holds it, and a `Basic` login of `guest` comes between asking for the secret
and redeeming it. -/
theorem guest_rounds_complete :
    ∃ (S : Authenticator) (c : Client) (fsC : Files.Store),
      (BasicSetting S c "guest" "guest-pw" ∧ BasicRound S c "guest" "guest-pw") ∧
        (LocalSetting S c "guest" ⟨[]⟩ fsC [guestLogin] 0 1 ∧ LocalRound S c "guest" ⟨[]⟩ fsC [guestLogin] 0 1) := by
  have hbasic : BasicSetting guestServer (Client.new "/") "guest" "guest-pw" :=
    ⟨rfl, rfl, by decide +kernel, by decide +kernel, rfl, by decide +kernel, rfl⟩
  have hlocal := @guest_localSetting [guestLogin] (by simp [guestLogin, Request.Asks, Request.Presents])
  exact ⟨guestServer, Client.new "/", _, ⟨hbasic, rounds_complete.1 _ _ _ _ hbasic⟩,
    ⟨hlocal, rounds_complete.2 _ _ _ _ _ _ _ _ hlocal⟩⟩

/-- **A `Local` redemption that authenticates**, as two requests to the
`guest` server: the first asks for a secret at time `0` into an empty store,
the second presents it at time `1`. The redemption authenticates `guest`, by
the secret that the first request handed out. -/
theorem guest_redemption_authenticates :
    ∃ ask redeem : Request, ask.localAuthorization = some "Local \"guest\"" ∧
      ((guestServer.after [ask]).serve redeem).1 = .ok (.authenticated "guest" .sameHost) ∧
      ∃ v file secret e, redeem.localAuthorization = some v ∧ Redeems v "guest" file secret ∧ secret ≠ "" ∧
        guestServer.Hands ask e ∧ Files.samePath e.path file = true ∧ e.secret = secret := by
  have hlocal := @guest_localSetting [] (by simp)
  obtain ⟨S₁, fs₁, hask, hconfig, hsole⟩ := hlocal.ask
  obtain ⟨S₂, fs₃, hredeem, -⟩ := hlocal.redeem ⟨[]⟩ hconfig hsole
  -- each request brings the randomness the server would have used
  let ask : Request := ⟨none, some ("Local \"" ++ "guest" ++ "\""), 0, ⟨[]⟩, guestServer.entropy⟩
  let redeem : Request := ⟨none, some ("Local \"" ++ "guest" ++ ":" ++ guestServer.secretFile "guest" ++ ":" ++
    guestServer.entropy.secret.1 ++ "\""), 1, ⟨[]⟩, S₁.entropy⟩
  have hafter : guestServer.after [ask] = S₁ := by
    show (guestServer.settle (guestServer.authenticate ⟨[]⟩ 0 none ask.localAuthorization)).2 = S₁
    rw [hask]
    rfl
  have hserve : ((guestServer.after [ask]).serve redeem).1 = .ok (.authenticated "guest" .sameHost) := by
    rw [hafter]
    show (S₁.settle (S₁.authenticate ⟨[]⟩ 1 none redeem.localAuthorization)).1 = _
    rw [← Authenticator.after_nil S₁, hredeem]
    rfl
  obtain ⟨v, file, secret, hv, hred, hne, xs, rᵢ, ys, e, hsplit, hhands, hpath, -, hsecret, -, -⟩ :=
    (local_secret_single_use { enabled := true, users := [("guest", "guest-pw")], trustedDir := "/" } 7).1
      [ask] redeem "guest" hserve
  -- the one request before the redemption is the one that handed the secret out
  have hxs : xs = [] := by
    cases xs with
    | nil => rfl
    | cons x xs => simp at hsplit
  subst hxs
  obtain ⟨rfl, -⟩ := List.cons.inj hsplit
  exact ⟨_, redeem, rfl, hserve, v, file, secret, e, hv, hred, hne, hhands, hpath, hsecret⟩

end CimBroker.Auth
