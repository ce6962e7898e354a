import Mathlib.Data.List.Sort
import Mailbox.Memory.Write

/-!
# The rules engine

`rules/engine.go` and `rules/rule.go`, over the in-memory store.  An engine fetches the rules of a
scope — the global ones and those of the user — and goes through them by priority.  The actions of a
rule whose condition matches are applied to the message, one store operation each, until one fails.

Conditions are CEL expressions; `compile` stands for the CEL library, and the cache of compiled
programs is left out.  A condition is evaluated on the message as it was when the engine was called.
`sort.Slice` is not stable, so `sort` is any way to put the rules in order.

What the engine does to the store is a sequence of actions of the rules it has fetched:
**`onMessageReceived_actions`** and **`afterSend_actions`**.  The loop over the rules ends with the
first action that fails, also without strict mode (**`due_rules_attempted_iff`**).
-/

namespace Mailbox.Rules

open Memory List

/-! ## Rules -/

inductive RuleScope where
  | receive
  | send

inductive ActionType where
  | setFolder
  | addTag
  | removeTag
  | markRead
  | delete
  | hardDelete
  | archive
  | spam
  | webhook
  | forward
  /-- A string that is none of the above. -/
  | other (name : String)

/-- `isValidSendAction` returns true if the action type is allowed on the send side. -/
def isValidSendAction : ActionType → Bool
  | .setFolder | .addTag | .removeTag | .archive | .webhook => true
  | _ => false

structure Action where
  type : ActionType
  value : String

structure Rule where
  id : String
  condition : String
  actions : List Action
  priority : ℤ
  stopOnMatch : Bool

structure RuleProvider where
  globalRules : RuleScope → Except Error (List Rule)
  userRules : String → RuleScope → Except Error (List Rule)

/-- What a condition evaluates to: a boolean, or a value of the type named. -/
inductive Outcome where
  | bool (b : Bool)
  | other (type : String)

structure Engine where
  provider : RuleProvider
  compile : String → Except Error (Message → Except Error Outcome)
  sort : List Rule → List Rule
  sort_perm : ∀ rules, (sort rules).Perm rules
  sort_sorted : ∀ rules, (sort rules).Pairwise fun r r' => r.priority ≤ r'.priority
  /-- `%q`. -/
  quote : String → String
  /-- What a forwarder does is calls of its own. -/
  forwarder : Option (String → String → Result)
  strictMode : Bool

namespace Engine

variable (e : Engine)

/-! ## Actions -/

/-- `handleError` returns the error only if strict mode is enabled. -/
def handleError (op : String) (err : Error) : Result :=
  if e.strictMode then .error (.wrap s!"rules: {op}" err) else .ok ()

/-- `applyAction` applies a single action to a message via store operations. -/
def applyAction (now : Time) (messageID : String) (action : Action) (s : Store) : Result × Store :=
  match action.type with
  | .setFolder => Store.moveToFolder now messageID action.value {} s
  | .addTag => Store.addTag now messageID action.value s
  | .removeTag => Store.removeTag now messageID action.value s
  | .markRead => Store.markRead now messageID true s
  | .delete => Store.delete now messageID s
  | .hardDelete => Store.hardDelete messageID s
  | .archive => Store.moveToFolder now messageID folderArchived {} s
  | .spam => Store.moveToFolder now messageID folderSpam {} s
  -- A webhook is fired and forgotten.
  | .webhook => (.ok (), s)
  | .forward =>
    match e.forwarder with
    | none => (.ok (), s)
    | some forward => (forward messageID action.value, s)
  | .other name =>
    if e.strictMode then (.error (.text s!"rules: unknown action type {e.quote name}"), s)
    else (.ok (), s)

/-- `applyReceiveActions` applies all actions to a message. -/
def applyReceiveActions (now : Time) (messageID : String) : List Action → StoreOp
  | [], s => (.ok (), s)
  | a :: actions, s =>
    match e.applyAction now messageID a s with
    | (.error err, s) => (.error err, s)
    | (.ok _, s) => applyReceiveActions now messageID actions s

/-- `applySendActions` applies only send-valid actions to a message. -/
def applySendActions (now : Time) (messageID : String) (actions : List Action) : StoreOp :=
  e.applyReceiveActions now messageID (actions.filter fun a => isValidSendAction a.type)

/-! ## Rules in order -/

/-- `fetchRules` retrieves and sorts global + user rules for the given scope. -/
def fetchRules (userID : String) (scope : RuleScope) : Except Error (List Rule) :=
  match e.provider.globalRules scope with
  | .error err => .error (.wrap "global rules" err)
  | .ok globalRules =>
    match e.provider.userRules userID scope with
    | .error err => .error (.wrap "user rules" err)
    | .ok userRules => .ok (e.sort (globalRules ++ userRules))

/-- `evaluate` compiles and evaluates a rule's CEL expression. -/
def evaluate (rule : Rule) (msg : Message) : Except Error Bool :=
  match e.compile rule.condition with
  | .error err => .error (.wrap s!"compile {e.quote rule.condition}" err)
  | .ok prg =>
    match prg msg with
    | .error err => .error (.wrap s!"eval {e.quote rule.condition}" err)
    | .ok (.other type) =>
      .error (.text s!"rule {rule.id}: condition must evaluate to bool, got {type}")
    | .ok (.bool result) => .ok result

/-- The loop over the rules, which `AfterSend` and `OnMessageReceived` share.  A rule that cannot be
evaluated is passed over, unless in strict mode; an action that fails ends the loop. -/
def applyRules (side : String) (apply : List Action → StoreOp) (msg : Message) : List Rule → StoreOp
  | [], s => (.ok (), s)
  | rule :: rules, s =>
    match e.evaluate rule msg with
    | .error evalErr =>
      match e.handleError s!"evaluate rule {rule.id}" evalErr with
      | .error err => (.error err, s)
      | .ok _ => applyRules side apply msg rules s
    | .ok false => applyRules side apply msg rules s
    | .ok true =>
      match apply rule.actions s with
      | (.error err, s) => (e.handleError s!"apply {side} actions for rule {rule.id}" err, s)
      | (.ok _, s) =>
        if rule.stopOnMatch then (.ok (), s) else applyRules side apply msg rules s

/-- `AfterSend` evaluates send-scope rules against the sender's message copy. -/
def afterSend (now : Time) (userID : String) (msg : Message) (s : Store) : Result × Store :=
  match e.fetchRules userID .send with
  | .error err => (e.handleError "fetch send rules" err, s)
  | .ok rules => e.applyRules "send" (e.applySendActions now msg.id) msg rules s

/-- `OnMessageReceived` evaluates receive-scope rules; the message must be the recipient's. -/
def onMessageReceived (now : Time) (messageID recipientID : String) (s : Store) : Result × Store :=
  match s.get messageID with
  | .error err => (.error (.wrap s!"rules: get message {messageID}" err), s)
  | .ok msg =>
    if msg.ownerID ≠ recipientID then
      (.error (.text s!"rules: message {messageID} not owned by recipient"), s)
    else
      match e.fetchRules recipientID .receive with
      | .error err => (e.handleError "fetch receive rules" err, s)
      | .ok rules =>
        e.applyRules "receive" (e.applyReceiveActions now messageID) msg rules s

/-! ## What the engine does to the store -/

/-- The store after a number of actions, whatever they return. -/
def applied (now : Time) (messageID : String) (actions : List Action) (s : Store) : Store :=
  actions.foldl (fun s a => (e.applyAction now messageID a s).2) s

variable (now : Time) (messageID : String)

lemma applyReceiveActions_applied (actions : List Action) (s : Store) :
    ∃ n, (e.applyReceiveActions now messageID actions s).2
      = e.applied now messageID (actions.take n) s := by
  induction actions generalizing s with
  | nil => exact ⟨0, rfl⟩
  | cons a actions ih =>
    rcases hstep : e.applyAction now messageID a s with ⟨err | _, s'⟩
    · refine ⟨1, ?_⟩
      simp [applyReceiveActions, applied, hstep]
    · obtain ⟨n, hn⟩ := ih s'
      refine ⟨n + 1, ?_⟩
      rw [applyReceiveActions, hstep, hn]
      simp [applied, hstep]

/-- The loop over the rules applies actions of the rules, if what it is given for one rule does. -/
lemma applyRules_applied (side : String) (apply : List Action → StoreOp)
    (ok : Action → Prop) (msg : Message)
    (happly : ∀ actions s, ∃ done, (apply actions s).2 = e.applied now messageID done s
      ∧ ∀ a ∈ done, a ∈ actions ∧ ok a) (rules : List Rule) (s : Store) :
    ∃ done, (e.applyRules side apply msg rules s).2 = e.applied now messageID done s
      ∧ ∀ a ∈ done, ok a ∧ ∃ rule ∈ rules, a ∈ rule.actions := by
  induction rules generalizing s with
  | nil => exact ⟨[], rfl, by simp⟩
  | cons rule rules ih =>
    -- The rules after this one, whether it has matched or not.
    have hrest : ∀ s', ∃ done,
        (e.applyRules side apply msg rules s').2 = e.applied now messageID done s'
          ∧ ∀ a ∈ done, ok a ∧ ∃ r ∈ rule :: rules, a ∈ r.actions := by
      intro s'
      obtain ⟨done, hst, hdn⟩ := ih s'
      refine ⟨done, hst, fun a ha => ?_⟩
      obtain ⟨hok, r, hr, hmem⟩ := hdn a ha
      exact ⟨hok, r, mem_cons_of_mem _ hr, hmem⟩
    rw [applyRules]
    cases e.evaluate rule msg with
    | error evalErr =>
      simp only
      cases e.handleError s!"evaluate rule {rule.id}" evalErr with
      | error => exact ⟨[], rfl, by simp⟩
      | ok => exact hrest s
    | ok matched =>
      cases matched with
      | false => exact hrest s
      | true =>
        obtain ⟨done, hst, hdn⟩ := happly rule.actions s
        have hown : ∀ a ∈ done, ok a ∧ ∃ r ∈ rule :: rules, a ∈ r.actions := fun a ha =>
          ⟨(hdn a ha).2, rule, mem_cons_self, (hdn a ha).1⟩
        rcases hres : apply rule.actions s with ⟨err | _, s'⟩ <;>
          simp only [hres] at hst
        · exact ⟨done, hst, hown⟩
        · simp only
          split_ifs
          · exact ⟨done, hst, hown⟩
          · obtain ⟨done', hst', hdn'⟩ := hrest s'
            refine ⟨done ++ done', ?_, fun a ha => ?_⟩
            · rw [hst', hst]
              exact foldl_append.symm
            · rcases mem_append.mp ha with ha | ha
              · exact hown a ha
              · exact hdn' a ha

variable {e}

/-- The action is one of a rule that the provider gives for the user, or for everybody. -/
def Provided (e : Engine) (userID : String) (scope : RuleScope) (a : Action) : Prop :=
  ∃ rule, a ∈ rule.actions ∧ ((∃ rules, e.provider.globalRules scope = .ok rules ∧ rule ∈ rules)
      ∨ ∃ rules, e.provider.userRules userID scope = .ok rules ∧ rule ∈ rules)

lemma provided_of_fetchRules {userID : String} {scope : RuleScope} {rules : List Rule}
    (hfetch : e.fetchRules userID scope = .ok rules) {rule : Rule} (hrule : rule ∈ rules)
    {a : Action} (ha : a ∈ rule.actions) : e.Provided userID scope a := by
  rw [fetchRules] at hfetch
  cases hglobal : e.provider.globalRules scope with
  | error =>
    rw [hglobal] at hfetch
    cases hfetch
  | ok globalRules =>
    cases huser : e.provider.userRules userID scope with
    | error =>
      rw [hglobal, huser] at hfetch
      cases hfetch
    | ok userRules =>
      rw [hglobal, huser] at hfetch
      cases hfetch
      refine ⟨rule, ha, ?_⟩
      rcases mem_append.mp ((e.sort_perm _).mem_iff.mp hrule) with hmem | hmem
      · exact Or.inl ⟨globalRules, hglobal, hmem⟩
      · exact Or.inr ⟨userRules, huser, hmem⟩

/-- **What a received message triggers** is a sequence of actions of the recipient's rules, all on
that message. -/
theorem onMessageReceived_actions (e : Engine) (now : Time) (messageID recipientID : String)
    (s : Store) :
    ∃ done, (e.onMessageReceived now messageID recipientID s).2 = e.applied now messageID done s
      ∧ ∀ a ∈ done, e.Provided recipientID .receive a := by
  rw [onMessageReceived]
  cases s.get messageID with
  | error => exact ⟨[], rfl, by simp⟩
  | ok msg =>
    simp only
    split_ifs
    · exact ⟨[], rfl, by simp⟩
    · cases hfetch : e.fetchRules recipientID .receive with
      | error => exact ⟨[], rfl, by simp⟩
      | ok rules =>
        obtain ⟨done, hst, hdn⟩ := e.applyRules_applied now messageID "receive"
          (e.applyReceiveActions now messageID) (fun _ => True) msg (fun actions s => by
            obtain ⟨n, hn⟩ := e.applyReceiveActions_applied now messageID actions s
            exact ⟨_, hn, fun a ha => ⟨mem_of_mem_take ha, trivial⟩⟩) rules s
        refine ⟨done, hst, fun a ha => ?_⟩
        obtain ⟨_, rule, hrule, hmem⟩ := hdn a ha
        exact provided_of_fetchRules hfetch hrule hmem

/-- **What a sent message triggers** is a sequence of actions of the sender's rules that are allowed
on the send side, all on the sender's copy. -/
theorem afterSend_actions (e : Engine) (now : Time) (userID : String) (msg : Message) (s : Store) :
    ∃ done, (e.afterSend now userID msg s).2 = e.applied now msg.id done s
      ∧ ∀ a ∈ done, isValidSendAction a.type = true ∧ e.Provided userID .send a := by
  rw [afterSend]
  cases hfetch : e.fetchRules userID .send with
  | error => exact ⟨[], rfl, by simp⟩
  | ok rules =>
    obtain ⟨done, hst, hdn⟩ := e.applyRules_applied now msg.id "send"
      (e.applySendActions now msg.id) (fun a => isValidSendAction a.type = true) msg
      (fun actions s => by
        obtain ⟨n, hn⟩ := e.applyReceiveActions_applied now msg.id
          (actions.filter fun a => isValidSendAction a.type) s
        refine ⟨_, hn, fun a ha => ?_⟩
        have hmem := mem_filter.mp (mem_of_mem_take ha)
        exact ⟨hmem.1, hmem.2⟩) rules s
    refine ⟨done, hst, fun a ha => ?_⟩
    obtain ⟨hval, rule, hrule, hmem⟩ := hdn a ha
    exact ⟨hval, provided_of_fetchRules hfetch hrule hmem⟩

/-! ## Which rules are attempted -/

section Attempts

variable (e : Engine) (now : Time) (messageID : String) (msg : Message)

/-- The rules whose actions the loop of `OnMessageReceived` attempts. -/
def attempts : List Rule → Store → List Rule
  | [], _ => []
  | rule :: rules, s =>
    match e.evaluate rule msg with
    | .error evalErr =>
      match e.handleError s!"evaluate rule {rule.id}" evalErr with
      | .error _ => []
      | .ok _ => attempts rules s
    | .ok false => attempts rules s
    | .ok true =>
      rule :: match e.applyReceiveActions now messageID rule.actions s with
        | (.error _, _) => []
        | (.ok _, s) => if rule.stopOnMatch then [] else attempts rules s

/-- The rules that match, up to the first that stops. -/
def due : List Rule → List Rule
  | [] => []
  | rule :: rules =>
    match e.evaluate rule msg with
    | .ok true => rule :: if rule.stopOnMatch then [] else due rules
    | _ => due rules

/-- The store after the actions of some rules, of each until one fails. -/
def ran (rules : List Rule) (s : Store) : Store :=
  rules.foldl (fun s rule => (e.applyReceiveActions now messageID rule.actions s).2) s

/-- All rules but the last succeed, each after those before it. -/
def Succeed : List Rule → Store → Prop
  | [], _ => True
  | rule :: rules, s =>
    (rules ≠ [] → (e.applyReceiveActions now messageID rule.actions s).1 = .ok ())
      ∧ Succeed rules (e.applyReceiveActions now messageID rule.actions s).2

lemma applyRules_attempts (rules : List Rule) (s : Store) :
    (e.applyRules "receive" (e.applyReceiveActions now messageID) msg rules s).2
        = e.ran now messageID (e.attempts now messageID msg rules s) s
      ∧ (e.attempts now messageID msg rules s).Sublist rules := by
  induction rules generalizing s with
  | nil => exact ⟨rfl, .slnil⟩
  | cons rule rules ih =>
    have hskip : ∀ s, _ ∧ (e.attempts now messageID msg rules s).Sublist (rule :: rules) :=
      fun s => ⟨(ih s).1, (ih s).2.cons rule⟩
    rw [applyRules, attempts]
    rcases e.evaluate rule msg with evalErr | _ | _
    · simp only
      cases e.handleError s!"evaluate rule {rule.id}" evalErr with
      | error => exact ⟨rfl, nil_sublist _⟩
      | ok => exact hskip s
    · exact hskip s
    · rcases hres : e.applyReceiveActions now messageID rule.actions s with ⟨err | _, s'⟩
      · simp [ran, hres]
      · cases rule.stopOnMatch with
        | true => simp [ran, hres]
        | false => simpa [ran, hres] using ih s'

lemma attempts_eq_due_iff (hlen : e.strictMode = false) (rules : List Rule) (s : Store) :
    e.attempts now messageID msg rules s = e.due msg rules
      ↔ e.Succeed now messageID (e.due msg rules) s := by
  induction rules generalizing s with
  | nil => simp [attempts, due, Succeed]
  | cons rule rules ih =>
    rw [attempts, due]
    rcases e.evaluate rule msg with evalErr | _ | _
    · simpa [handleError, hlen] using ih s
    · exact ih s
    · rcases hres : e.applyReceiveActions now messageID rule.actions s with ⟨err | _, s'⟩
      · -- What comes after a failure is not attempted.
        cases rule.stopOnMatch with
        | true => simp [Succeed]
        | false => cases e.due msg rules <;> simp [Succeed, hres]
      · cases rule.stopOnMatch with
        | true => simp [Succeed]
        | false => simp [Succeed, hres, ih]

end Attempts

/-- **The rules for a received message**, without strict mode.  A message of somebody else is left
alone.  On one of the recipient's own, the rules are attempted by priority; all that are due are, if
and only if each of them but the last succeeds. -/
theorem due_rules_attempted_iff (e : Engine) (hlen : e.strictMode = false) (now : Time)
    (messageID recipientID : String) (s : Store) (msg : Message)
    (hget : s.get messageID = .ok msg) (rules : List Rule)
    (hf : e.fetchRules recipientID .receive = .ok rules) :
    let attempted := e.attempts now messageID msg rules s
    (msg.ownerID ≠ recipientID → (e.onMessageReceived now messageID recipientID s).2 = s)
      ∧ (msg.ownerID = recipientID → (e.onMessageReceived now messageID recipientID s).2
            = e.ran now messageID attempted s
          ∧ attempted.Pairwise (fun r r' => r.priority ≤ r'.priority)
          ∧ (attempted = e.due msg rules ↔ e.Succeed now messageID (e.due msg rules) s)) := by
  obtain ⟨hran, hsub⟩ := e.applyRules_attempts now messageID msg rules s
  have hst : rules.Pairwise fun r r' => r.priority ≤ r'.priority := by
    rw [fetchRules] at hf
    split at hf
    · cases hf
    split at hf
    · cases hf
    cases hf
    exact e.sort_sorted _
  refine ⟨fun hne => ?_, fun hown => ⟨?_, hst.sublist hsub,
    e.attempts_eq_due_iff now messageID msg hlen rules s⟩⟩
  · simp [onMessageReceived, hget, hne]
  · simp [onMessageReceived, hget, hown, hf, hran]

end Engine

def noRules : Engine where
  provider := ⟨fun _ => .ok [], fun _ _ => .ok []⟩
  compile _ := .error (.text "no conditions")
  sort := List.insertionSort fun r r' => r.priority ≤ r'.priority
  sort_perm := List.perm_insertionSort _
  sort_sorted rules := by
    have : Std.Total fun r r' : Rule => r.priority ≤ r'.priority :=
      ⟨fun r r' => le_total r.priority r'.priority⟩
    have : IsTrans Rule fun r r' => r.priority ≤ r'.priority := ⟨fun _ _ _ => le_trans⟩
    exact List.pairwise_insertionSort _ rules
  quote text := text
  forwarder := none
  strictMode := true

/-- Two rules for every message: the first forwards it to Bob, the second marks it as read. -/
def forwardAndRead (forwarded : Result) : Engine :=
  { noRules with
    provider := ⟨fun _ => .ok [⟨"r1", "", [⟨.forward, "bob"⟩], 1, false⟩,
      ⟨"r2", "", [⟨.markRead, ""⟩], 2, false⟩], fun _ _ => .ok []⟩
    compile := fun _ => .ok fun _ => .ok (.bool true)
    forwarder := some fun _ _ => forwarded
    strictMode := false }

def annsMail : Store :=
  .of <| Table.empty.put { Store.newDraft 0 "ann" with id := "m1", isDraft := false }

theorem due_rules_attempted_ann : ∃ msg rules, annsMail.get "m1" = .ok msg
    ∧ (forwardAndRead (.ok ())).attempts 1 "m1" msg rules annsMail
      = (forwardAndRead (.ok ())).due msg rules :=
  ⟨_, _, rfl, (((forwardAndRead (.ok ())).due_rules_attempted_iff rfl 1 "m1" "ann" annsMail _ rfl _
    rfl).2 rfl).2.2.mpr ⟨fun _ => rfl, fun h => absurd rfl h, trivial⟩⟩

/-- Bob cannot be reached, and the second rule is not attempted: the message is not read. -/
theorem later_rule_skipped :
    let e := forwardAndRead (.error (.text "no such user"))
    (e.onMessageReceived 1 "m1" "ann" annsMail).1 = .ok ()
      ∧ ((e.onMessageReceived 1 "m1" "ann" annsMail).2.messages.load "m1").map Message.isRead
        = some false
      ∧ ∃ rules, e.fetchRules "ann" .receive = .ok rules
        ∧ ∀ msg, (e.due msg rules).map Rule.id = ["r1", "r2"] :=
  ⟨rfl, rfl, _, rfl, fun _ => rfl⟩

end Mailbox.Rules
