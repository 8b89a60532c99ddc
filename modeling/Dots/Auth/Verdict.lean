import Dots.Auth.Model

/-!
# The verdict on an answer

The rules that match a guest are read in the order of their priorities.

* `stops`, `isOpen`, `answers`: the rules at which the loop of `verifyResponse` ends for a guest
  without an answer, for a guest whose answer is wrong, and for a given answer.
* `isLocked`: a guest without an answer stops at a secret.
* **`verifyRules_of_readable`**, `verifyRules_of_missing`, `verifyRules_of_unreadable`: the loop.
* **`wrong_answer_iff`**: when a wrong answer is worth no more than none.
-/

set_option autoImplicit false
set_option linter.unusedSectionVars false

namespace Dots

variable {A : AuthSchema} {V : Type} [AuthValue V] {D : Type} [DecidableEq D]

namespace DotsAuthentication

variable (env : AuthEnv D) (rule : DotsAuthentication A V)

/-- A guest without an answer stops here. -/
def stops : Bool := rule.secret.isSome || rule.accept.isSome

/-- Everybody stops here. -/
def isOpen : Bool := rule.secret.isNone && rule.accept.isSome

/-- A guest with this answer stops here. -/
def answers (authNonce : ℕ) (cnonce clientName : String) (response : D) : Bool :=
  rule.accept.isSome &&
    rule.secret.all fun secret => response = env.digest authNonce cnonce clientName secret

end DotsAuthentication

open DotsAuthentication

/-- The first rule that stops a guest without an answer has a secret. -/
def isLocked (rules : List (DotsAuthentication A V)) : Bool :=
  (rules.find? stops).any fun rule => rule.secret.isSome

/-- What the first rule without a secret says. -/
def openAccept (rules : List (DotsAuthentication A V)) : Option Bool :=
  (rules.find? isOpen).bind accept

namespace LegacyAuthManager

/-! ## The loop -/

section Loop

variable {env : AuthEnv D} {authNonce : ℕ} {clientName : String} {msgConnect : DotsMsgConnect}
variable {text cnonce : String} {response : D}

/-- **A readable answer** is judged by the first rule that it answers. -/
theorem verifyRules_of_readable (ht : msgConnect.authChallengeResponse = some text)
    (hc : msgConnect.cnonce = some cnonce) (hr : env.ofString text = .ok response)
    (rules : List (DotsAuthentication A V)) :
    (verifyRules env authNonce clientName msgConnect rules).2 =
      .ok ((rules.find? (answers env · authNonce cnonce clientName response)).bind accept) := by
  induction rules with
  | nil => rfl
  | cons rule rules ih =>
    rw [List.find?_cons]
    cases hs : rule.secret with
    | none =>
      cases ha : rule.accept with
      | none => simp [verifyRules, answers, hs, ha, ih]
      | some accept => simp [verifyRules, answers, hs, ha]
    | some secret =>
      by_cases he : response = env.digest authNonce cnonce clientName secret
      · cases ha : rule.accept with
        | none => simp [verifyRules, answers, hs, ha, ht, hc, hr, ← he, ih]
        | some accept => simp [verifyRules, answers, hs, ha, ht, hc, hr, ← he]
      · simp [verifyRules, answers, hs, ht, hc, hr, he, ih]

/-- A readable answer is compared with a secret exactly if the rules are locked. -/
theorem compared_of_readable (ht : msgConnect.authChallengeResponse = some text)
    (hc : msgConnect.cnonce = some cnonce) (hr : env.ofString text = .ok response)
    (rules : List (DotsAuthentication A V)) :
    (verifyRules env authNonce clientName msgConnect rules).1 ≠ [] ↔ isLocked rules = true := by
  induction rules with
  | nil => simp [verifyRules, isLocked]
  | cons rule rules ih =>
    unfold isLocked at ih ⊢
    rw [List.find?_cons]
    cases hs : rule.secret with
    | none =>
      cases ha : rule.accept with
      | none => simpa [verifyRules, stops, hs, ha] using ih
      | some accept => simp [verifyRules, stops, hs, ha]
    | some secret =>
      have hne : (verifyRules env authNonce clientName msgConnect (rule :: rules)).1 ≠ [] := by
        by_cases he : response = env.digest authNonce cnonce clientName secret
        · cases ha : rule.accept with
          | none => simp [verifyRules, hs, ha, ht, hc, hr, ← he]
          | some accept => simp [verifyRules, hs, ha, ht, hc, hr, ← he]
        · simp [verifyRules, hs, ht, hc, hr, he]
      simp [hne, stops, hs]

/-- A guest without an answer is refused by the first rule with a secret. -/
theorem verifyRules_of_missing
    (h : msgConnect.authChallengeResponse = none ∨ msgConnect.cnonce = none)
    (rules : List (DotsAuthentication A V)) :
    (verifyRules env authNonce clientName msgConnect rules).2 =
      .ok (if isLocked rules then some false else (rules.find? stops).bind accept) := by
  induction rules with
  | nil => rfl
  | cons rule rules ih =>
    unfold isLocked at ih ⊢
    rw [List.find?_cons]
    cases hs : rule.secret with
    | none =>
      cases ha : rule.accept with
      | none => simpa [verifyRules, stops, hs, ha] using ih
      | some accept => simp [verifyRules, stops, hs, ha]
    | some secret =>
      rcases h with h | h
      · simp [verifyRules, stops, hs, h]
      · simp only [verifyRules, stops, hs, h]
        split <;> simp_all

/-- An answer that cannot be read throws at the first rule with a secret. -/
theorem verifyRules_of_unreadable {what : String}
    (ht : msgConnect.authChallengeResponse = some text) (hc : msgConnect.cnonce = some cnonce)
    (hr : env.ofString text = .error what) (rules : List (DotsAuthentication A V)) :
    (verifyRules env authNonce clientName msgConnect rules).2 =
      if isLocked rules then .error what else .ok ((rules.find? stops).bind accept) := by
  induction rules with
  | nil => rfl
  | cons rule rules ih =>
    unfold isLocked at ih ⊢
    rw [List.find?_cons]
    cases hs : rule.secret with
    | none =>
      cases ha : rule.accept with
      | none => simpa [verifyRules, stops, hs, ha] using ih
      | some accept => simp [verifyRules, stops, hs, ha]
    | some secret => simp [verifyRules, stops, hs, ht, hc, hr]

end Loop

/-- Rules that are not locked are open to everybody at the rule where all stop. -/
theorem openAccept_of_not_locked {rules : List (DotsAuthentication A V)}
    (h : isLocked rules = false) : openAccept rules = (rules.find? stops).bind accept := by
  unfold isLocked at h
  unfold openAccept
  induction rules with
  | nil => rfl
  | cons rule rules ih =>
    rw [List.find?_cons] at h ⊢
    rw [List.find?_cons]
    cases hs : rule.secret with
    | none =>
      cases ha : rule.accept with
      | none =>
        simp only [stops, isOpen, hs, ha] at h ⊢
        exact ih h
      | some accept => simp [stops, isOpen, hs, ha]
    | some secret => simp [stops, hs] at h

/-- A wrong answer stops only where everybody does. -/
theorem find?_answers_of_wrong {env : AuthEnv D} {authNonce : ℕ} {cnonce clientName : String}
    {response : D} {rules : List (DotsAuthentication A V)}
    (h : ∀ rule ∈ rules, ∀ secret, rule.secret = some secret →
      response ≠ env.digest authNonce cnonce clientName secret) :
    rules.find? (answers env · authNonce cnonce clientName response) = rules.find? isOpen := by
  induction rules with
  | nil => rfl
  | cons rule rules ih =>
    have heq : answers env rule authNonce cnonce clientName response = isOpen rule := by
      cases hs : rule.secret with
      | none => simp [answers, isOpen, hs]
      | some secret => simp [answers, isOpen, hs, h rule List.mem_cons_self secret hs]
    rw [List.find?_cons, List.find?_cons, heq, ih fun r hr => h r (List.mem_cons_of_mem _ hr)]

/-- Where a rule has a secret, somebody stops. -/
theorem openAccept_isSome {rules : List (DotsAuthentication A V)}
    (h : ∃ rule ∈ rules, rule.secret.isSome = true) (hl : isLocked rules = false) :
    (openAccept rules).isSome = true := by
  obtain ⟨rule, hm, hs⟩ := h
  have hsome : (rules.find? stops).isSome = true :=
    List.find?_isSome.mpr ⟨rule, hm, by simp [stops, hs]⟩
  obtain ⟨first, hf⟩ := Option.isSome_iff_exists.mp hsome
  have hstop : stops first = true := List.find?_some hf
  have hnone : first.secret = none := by simpa [isLocked, hf] using hl
  rw [openAccept_of_not_locked hl, hf]
  simpa [stops, hnone] using hstop

/-! ## Wrong answers -/

variable (env : AuthEnv D) (m : LegacyAuthManager A V) (address : Address) (authNonce : ℕ)
variable (msgConnect : DotsMsgConnect)

/-- `verifyResponse` accepts the guest. -/
def Accepts : Prop := (m.verifyResponse env address authNonce msgConnect).2 = .ok true

/-- The connect message with its answer left out. -/
def withoutResponse : DotsMsgConnect :=
  { msgConnect with authChallengeResponse := none, cnonce := none }

/-- The connect message carries an answer that can be read. -/
def Readable : Prop :=
  ∃ text cnonce response, msgConnect.authChallengeResponse = some text ∧
    msgConnect.cnonce = some cnonce ∧ env.ofString text = .ok response

/-- The connect message answers with the secret of a matching rule. -/
def AnswersSecret (clientName : String) : Prop :=
  ∃ text cnonce response, msgConnect.authChallengeResponse = some text ∧
    msgConnect.cnonce = some cnonce ∧ env.ofString text = .ok response ∧
      ∃ rule ∈ m.findMatchingRules env address clientName, ∃ secret, rule.secret = some secret ∧
        response = env.digest authNonce cnonce clientName secret

/-- What is left for a guest that no secret lets in: the first rule without a secret, then the
policy, then the built-in default. -/
def isOpenFor (clientName : String) : Bool :=
  ((openAccept (m.findMatchingRules env address clientName)) <|> m.defaultAcceptPolicy).getD true

variable {env m address authNonce msgConnect} {clientName : String}

/-- The verdict on a readable answer. -/
theorem verifyResponse_of_readable {text cnonce : String} {response : D}
    (hn : msgConnect.clientName = some clientName)
    (ht : msgConnect.authChallengeResponse = some text) (hc : msgConnect.cnonce = some cnonce)
    (hr : env.ofString text = .ok response) :
    (m.verifyResponse env address authNonce msgConnect).2 = .ok
      (((((m.findMatchingRules env address clientName).find?
        (answers env · authNonce cnonce clientName response)).bind accept) <|>
          m.defaultAcceptPolicy).getD true) := by
  unfold verifyResponse
  simp only [hn, verifyRules_of_readable ht hc hr]
  rfl

/-- Without a readable answer a guest gets past rules that are not locked only. -/
theorem accepts_of_not_readable (hn : msgConnect.clientName = some clientName)
    (h : ¬ Readable env msgConnect) : m.Accepts env address authNonce msgConnect ↔
      isLocked (m.findMatchingRules env address clientName) = false ∧
        m.isOpenFor env address clientName = true := by
  set rules := m.findMatchingRules env address clientName with hrules
  have hmissing (h' : msgConnect.authChallengeResponse = none ∨ msgConnect.cnonce = none) :
      m.Accepts env address authNonce msgConnect ↔ isLocked rules = false ∧
        m.isOpenFor env address clientName = true := by
    unfold Accepts verifyResponse
    simp only [hn, ← hrules, verifyRules_of_missing h']
    cases hl : isLocked rules with
    | true => simp [Except.map]
    | false => simp [Except.map, isOpenFor, ← hrules, openAccept_of_not_locked hl]
  cases ht : msgConnect.authChallengeResponse with
  | none => exact hmissing (.inl ht)
  | some text =>
    cases hc : msgConnect.cnonce with
    | none => exact hmissing (.inr hc)
    | some cnonce =>
      cases hr : env.ofString text with
      | ok response => exact absurd ⟨text, cnonce, response, ht, hc, hr⟩ h
      | error what =>
        unfold Accepts verifyResponse
        simp only [hn, ← hrules, verifyRules_of_unreadable ht hc hr]
        cases hl : isLocked rules with
        | true => simp [Except.map]
        | false => simp [Except.map, isOpenFor, ← hrules, openAccept_of_not_locked hl]

/-- A wrong answer gets past every secret. -/
theorem accepts_of_wrong (hn : msgConnect.clientName = some clientName)
    (hw : ¬ m.AnswersSecret env address authNonce msgConnect clientName)
    (h : Readable env msgConnect) : m.Accepts env address authNonce msgConnect ↔
      m.isOpenFor env address clientName = true := by
  obtain ⟨text, cnonce, response, ht, hc, hr⟩ := h
  have hwrong : ∀ rule ∈ m.findMatchingRules env address clientName, ∀ secret,
      rule.secret = some secret → response ≠ env.digest authNonce cnonce clientName secret :=
    fun rule hm secret hs he => hw ⟨text, cnonce, response, ht, hc, hr, rule, hm, secret, hs, he⟩
  rw [Accepts, verifyResponse_of_readable hn ht hc hr, find?_answers_of_wrong hwrong]
  simp [isOpenFor, openAccept]

/-- Accepted by the first rule without a secret, or by a policy where there is none. -/
def OpenlyAccepts (m : LegacyAuthManager A V) (rules : List (DotsAuthentication A V)) : Prop :=
  openAccept rules = some true ∨ openAccept rules = none ∧ m.defaultAcceptPolicy = some true

/-- **A wrong answer is worth more than none** exactly if it gets past locked rules to somebody
who accepts; the built-in default is that somebody if there is neither a rule without a secret nor
a policy. -/
theorem wrong_answer_iff (hn : msgConnect.clientName = some clientName)
    (hw : ¬ m.AnswersSecret env address authNonce msgConnect clientName) :
    ((m.Accepts env address authNonce msgConnect →
        m.Accepts env address authNonce (withoutResponse msgConnect)) ↔
      (Readable env msgConnect → isLocked (m.findMatchingRules env address clientName) = true →
        m.isOpenFor env address clientName = false)) ∧
    (((∃ rule ∈ m.findMatchingRules env address clientName, rule.secret.isSome = true) →
        m.Accepts env address authNonce msgConnect →
          m.OpenlyAccepts (m.findMatchingRules env address clientName)) ↔
      (Readable env msgConnect →
        (∃ rule ∈ m.findMatchingRules env address clientName, rule.secret.isSome = true) →
          openAccept (m.findMatchingRules env address clientName) = none →
            m.defaultAcceptPolicy ≠ none)) := by
  set rules := m.findMatchingRules env address clientName with hrules
  have hn' : (withoutResponse msgConnect).clientName = some clientName := hn
  have hnr : ¬ Readable env (withoutResponse msgConnect) := by
    rintro ⟨text, _, _, h, _⟩
    exact (Option.some_ne_none text).symm h
  have hmissing : m.Accepts env address authNonce (withoutResponse msgConnect) ↔ _ :=
    accepts_of_not_readable hn' hnr
  rw [← hrules] at hmissing
  by_cases hread : Readable env msgConnect
  · have hwrong := accepts_of_wrong hn hw hread
    constructor
    · rw [hwrong, hmissing]
      simp only [hread, true_implies]
      cases isLocked rules <;> cases m.isOpenFor env address clientName <;> simp
    · rw [hwrong]
      simp only [hread, true_implies]
      refine forall_congr' fun _ => ?_
      unfold isOpenFor OpenlyAccepts
      rw [← hrules]
      cases openAccept rules with
      | some b => simp
      | none => cases m.defaultAcceptPolicy <;> simp
  · have hnone : m.Accepts env address authNonce msgConnect ↔ _ :=
      accepts_of_not_readable hn hread
    rw [← hrules] at hnone
    constructor
    · rw [hnone, hmissing]
      simp [hread]
    · simp only [hread, false_implies, iff_true]
      intro hsecret hacc
      obtain ⟨hl, ho⟩ := hnone.mp hacc
      obtain ⟨b, hb⟩ := Option.isSome_iff_exists.mp (openAccept_isSome hsecret hl)
      refine .inl ?_
      simpa [isOpenFor, ← hrules, hb] using ho

/-! ## A locked rule and a wrong answer -/

instance : Decidable (m.Accepts env address authNonce msgConnect) :=
  inferInstanceAs (Decidable (_ = _))

theorem not_answersSecret {text cnonce : String} {response : D}
    (ht : msgConnect.authChallengeResponse = some text) (hc : msgConnect.cnonce = some cnonce)
    (hr : env.ofString text = .ok response)
    (h : ((m.findMatchingRules env address clientName).all fun rule => rule.secret.all fun secret =>
      response != env.digest authNonce cnonce clientName secret) = true) :
    ¬ m.AnswersSecret env address authNonce msgConnect clientName := by
  rintro ⟨text', cnonce', response', ht', hc', hr', rule, hm, secret, hs, he⟩
  obtain rfl : text = text' := Option.some.inj (ht.symm.trans ht')
  obtain rfl : cnonce = cnonce' := Option.some.inj (hc.symm.trans hc')
  obtain rfl : response = response' := Except.ok.inj (hr.symm.trans hr')
  have hne := List.all_eq_true.mp h rule hm
  simp [hs, he] at hne

/-- One rule, which accepts with a secret. -/
def lockedRule (defaultAcceptPolicy : Option Bool) : LegacyAuthManager testAuthSchema ℕ where
  rules := [(10, testRule 0 10 (some 7) (some 1))]
  defaultAcceptPolicy

/-- A rule that accepts with a secret before one that accepts everybody. -/
def lockedThenOpen : LegacyAuthManager testAuthSchema ℕ where
  rules := [(10, testRule 0 10 (some 7) (some 1)), (20, testRule 0 20 none (some 1))]

/-- A guest that makes up its answer. -/
def madeUpAnswer : DotsMsgConnect :=
  { clientName := some "guest", preloadCache := some true, authChallengeResponse := some "answer"
    cnonce := some "cnonce" }

theorem wrong_answer_iff_open : lockedThenOpen.OpenlyAccepts
    (lockedThenOpen.findMatchingRules testAuthEnv testAddress "guest") := by
  have hname : madeUpAnswer.clientName = some "guest" := rfl
  have hwrong : ¬ lockedThenOpen.AnswersSecret testAuthEnv testAddress 5 madeUpAnswer "guest" :=
    not_answersSecret rfl rfl rfl (by decide +kernel)
  refine (wrong_answer_iff hname hwrong).2.mpr (fun _ _ h => ?_) (by decide +kernel)
    (by decide +kernel)
  exact absurd h (by decide +kernel)

/-- **A made up answer opens a locked door**, which stays shut without it; and the built-in
default opens it where there is nothing but a rule with a secret. -/
theorem wrong_answer_accepted :
    (¬ lockedThenOpen.AnswersSecret testAuthEnv testAddress 5 madeUpAnswer "guest" ∧
      lockedThenOpen.Accepts testAuthEnv testAddress 5 madeUpAnswer ∧
      ¬ lockedThenOpen.Accepts testAuthEnv testAddress 5 (withoutResponse madeUpAnswer)) ∧
    ¬ (lockedRule none).AnswersSecret testAuthEnv testAddress 5 madeUpAnswer "guest" ∧
      (lockedRule none).Accepts testAuthEnv testAddress 5 madeUpAnswer ∧
      (∀ rule ∈ (lockedRule none).findMatchingRules testAuthEnv testAddress "guest",
        rule.secret.isSome = true) ∧
      (lockedRule none).defaultAcceptPolicy = none :=
  ⟨⟨not_answersSecret rfl rfl rfl (by decide +kernel), by decide +kernel, by decide +kernel⟩,
    not_answersSecret rfl rfl rfl (by decide +kernel), by decide +kernel, by decide +kernel, rfl⟩

end LegacyAuthManager

end Dots
