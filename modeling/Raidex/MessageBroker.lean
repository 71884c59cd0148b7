import Raidex.Basic
import Raidex.Lib.ListUpdate
import Raidex.Lib.Run

/-!
# Raidex.MessageBroker

The message broker: listeners on topics, and the queues they read from.

A queue is an object that the broker and the caller of `listen_on` share; it is named by its place
among all queues. Values are those of Python other than `None`, so a message or the result of a
transform is an `Option`.

* `Subscription`: what a listener is meant to get; `Refines`: the broker keeps to it.
* `heard`: the values for a listener, from the calls after the one that made it.
* `broker_delivers`: the queue of every listener holds exactly these.
-/

namespace Raidex

/-- Topics are names, or binary data such as addresses. -/
inductive Topic where
  | name (s : String)
  | binary (b : Bytes)
  deriving DecidableEq

def Topic.broadcast : Topic := .name "broadcast"

variable {V : Type}

abbrev Transform (V : Type) := Option (Option V → Option V)

/-- What a listener with the transform makes of a message. -/
def Transform.apply (transform : Transform V) (message : Option V) : Option V :=
  match transform with
  | none => message
  | some f => f message

structure Listener (V : Type) where
  topic : Topic
  messageQueueAsync : Nat
  transform : Transform V

/-- A topic without an entry has no listeners. -/
structure MessageBroker (V : Type) where
  listeners : Topic → List (Listener V)
  queues : List (List V)

namespace MessageBroker

def init : MessageBroker V where
  listeners _ := []
  queues := []

/-! ## Methods -/

/-- `put` of the queue -/
def put (queues : List (List V)) (i : Nat) (x : V) : List (List V) :=
  queues.modify i (· ++ [x])

/-- The loop of `_send`. The topic of a listener is the one it is found under. -/
def deliver (message : Option V) : List (Listener V) → List (List V) → List (List V)
  | [], queues => queues
  | l :: ls, queues =>
    match l.transform.apply message with
    | none => deliver message ls queues
    | some x => deliver message ls (put queues l.messageQueueAsync x)

/-- `_send`, and what it returns. -/
def sendTopic (b : MessageBroker V) (topic : Topic) (message : Option V) : MessageBroker V × Bool :=
  if (b.listeners topic).isEmpty then (b, false)
  else ({ b with queues := deliver message (b.listeners topic) b.queues }, true)

def broadcast (b : MessageBroker V) (message : Option V) : MessageBroker V × Bool :=
  b.sendTopic .broadcast message

def send (b : MessageBroker V) (topic : Topic) (message : Option V) : MessageBroker V × Bool :=
  if topic = .broadcast then b.broadcast message else b.sendTopic topic message

/-- `_listen_on`, and the listener it returns. -/
def listenTopic (b : MessageBroker V) (topic : Topic) (transform : Transform V) :
    MessageBroker V × Listener V :=
  let l : Listener V :=
    { topic := topic, messageQueueAsync := b.queues.length, transform := transform }
  ({ listeners := Function.update b.listeners topic (b.listeners topic ++ [l])
     queues := b.queues ++ [[]] }, l)

def listenOnBroadcast (b : MessageBroker V) (transform : Transform V) :
    MessageBroker V × Listener V :=
  b.listenTopic .broadcast transform

def listenOn (b : MessageBroker V) (topic : Topic) (transform : Transform V) :
    MessageBroker V × Listener V :=
  if topic = .broadcast then b.listenOnBroadcast transform else b.listenTopic topic transform

/-- Equal listeners have the same queue, and every listener has its own. -/
def stopListen (b : MessageBroker V) (l : Listener V) : MessageBroker V :=
  { b with listeners := Function.update b.listeners l.topic
             ((b.listeners l.topic).eraseP fun l' => l'.messageQueueAsync = l.messageQueueAsync) }

/-! ## Runs -/

inductive Call (V : Type) where
  | listenOn (topic : Topic) (transform : Transform V)
  | listenOnBroadcast (transform : Transform V)
  | stopListen (l : Listener V)
  | send (topic : Topic) (message : Option V)
  | broadcast (message : Option V)

def step (b : MessageBroker V) : Call V → MessageBroker V
  | .listenOn topic transform => (b.listenOn topic transform).1
  | .listenOnBroadcast transform => (b.listenOnBroadcast transform).1
  | .stopListen l => b.stopListen l
  | .send topic message => (b.send topic message).1
  | .broadcast message => (b.broadcast message).1

def run (calls : List (Call V)) : MessageBroker V := LTS.run step init calls

/-- Only current listeners are stopped. -/
def Valid (b : MessageBroker V) : Call V → Prop
  | .stopListen l => l ∈ b.listeners l.topic
  | _ => True

namespace Call

/-- The topic and the message of a call that sends one. -/
def sent : Call V → Option (Topic × Option V)
  | .send topic message => some (topic, message)
  | .broadcast message => some (.broadcast, message)
  | _ => none

/-- The topic and the transform of a call that makes a listener. -/
def listens : Call V → Option (Topic × Transform V)
  | .listenOn topic transform => some (topic, transform)
  | .listenOnBroadcast transform => some (.broadcast, transform)
  | _ => none

/-- The call stops the listener with queue `i`. -/
def Stops (i : Nat) : Call V → Prop
  | .stopListen l => l.messageQueueAsync = i
  | _ => False

instance (i : Nat) (c : Call V) : Decidable (c.Stops i) :=
  match c with
  | .stopListen l => inferInstanceAs (Decidable (l.messageQueueAsync = i))
  | .listenOn .. | .listenOnBroadcast .. | .send .. | .broadcast .. => .isFalse id

end Call

/-! ## What listeners are meant to get -/

/-- What is for a listener on the topic in a message that is sent. -/
def forListener (topic : Topic) (transform : Transform V) (c : Call V) : List V :=
  match c.sent with
  | none => []
  | some x => if x.1 = topic then (transform.apply x.2).toList else []

/-- The values for the listener with queue `i`, up to the call that stops it. -/
def heard (i : Nat) (topic : Topic) (transform : Transform V) : List (Call V) → List V
  | [] => []
  | c :: cs =>
    if c.Stops i then [] else forListener topic transform c ++ heard i topic transform cs

/-- The listener that a call makes and returns. -/
def made (b : MessageBroker V) : Call V → Option (Listener V)
  | .listenOn topic transform => some (b.listenOn topic transform).2
  | .listenOnBroadcast transform => some (b.listenOnBroadcast transform).2
  | _ => none

/-- A listener on the topic is made by these calls and not stopped again. -/
def Listening (calls : List (Call V)) (topic : Topic) : Prop :=
  ∃ pre c post l, calls = pre ++ c :: post ∧ made (run pre) c = some l ∧ l.topic = topic ∧
    ∀ c' ∈ post, ¬ c'.Stops l.messageQueueAsync

/-! ## Subscriptions -/

structure Subscription (V : Type) where
  topic : Topic
  transform : Transform V
  received : List V
  current : Bool

/-- The subscription at place `i` after a call. -/
def Subscription.step (i : Nat) (x : Subscription V) (c : Call V) : Subscription V :=
  if c.Stops i then { x with current := false }
  else if x.current then { x with received := x.received ++ forListener x.topic x.transform c }
  else x

/-- The subscriptions after a call: each on its own, and the new one. -/
def subscribe (xs : List (Subscription V)) (c : Call V) : List (Subscription V) :=
  xs.mapIdx (fun i x => x.step i c) ++ c.listens.toList.map fun y =>
    { topic := y.1, transform := y.2, received := [], current := true }

def subscriptions (calls : List (Call V)) : List (Subscription V) := LTS.run subscribe [] calls

/-- The broker keeps to the subscriptions. -/
structure Refines (b : MessageBroker V) (xs : List (Subscription V)) : Prop where
  queues : ∀ i : Nat, b.queues[i]? = xs[i]?.map Subscription.received
  listeners : ∀ topic l, l ∈ b.listeners topic ↔ l.topic = topic ∧
    ∃ x ∈ xs[l.messageQueueAsync]?, x.current = true ∧ x.topic = topic ∧ x.transform = l.transform
  distinct : ∀ topic, ((b.listeners topic).map Listener.messageQueueAsync).Nodup

variable {b b' : MessageBroker V} {xs : List (Subscription V)} {topic : Topic}
  {transform : Transform V} {message : Option V} {c : Call V}

/-! ## One call -/

theorem listenOn_eq (b : MessageBroker V) (topic : Topic) (transform : Transform V) :
    b.listenOn topic transform = b.listenTopic topic transform := by
  unfold listenOn listenOnBroadcast
  split
  next h => rw [h]
  next => rfl

theorem listenOn_queue (b : MessageBroker V) (topic : Topic) (transform : Transform V) :
    (b.listenOn topic transform).2.messageQueueAsync = b.queues.length := by
  rw [listenOn_eq]
  rfl

theorem send_eq (b : MessageBroker V) (topic : Topic) (message : Option V) :
    b.send topic message = b.sendTopic topic message := by
  unfold send broadcast
  split
  next h => rw [h]
  next => rfl

theorem put_self (queues : List (List V)) (i : Nat) (x : V) :
    (put queues i x)[i]? = queues[i]?.map (· ++ [x]) := by
  rw [put, List.getElem?_modify]
  cases queues[i]? <;> simp

theorem put_of_ne {i j : Nat} (h : i ≠ j) (queues : List (List V)) (x : V) :
    (put queues i x)[j]? = queues[j]? := by
  rw [put, List.getElem?_modify]
  cases queues[j]? <;> simp [h]

/-- A queue that none of the listeners has is as before. -/
theorem deliver_of_not_mem {ls : List (Listener V)} {i : Nat}
    (h : i ∉ ls.map Listener.messageQueueAsync) (queues : List (List V)) :
    (deliver message ls queues)[i]? = queues[i]? := by
  induction ls generalizing queues with
  | nil => rfl
  | cons l ls ih =>
    rw [List.map_cons, List.mem_cons, not_or] at h
    unfold deliver
    split
    · exact ih h.2 queues
    · rw [ih h.2, put_of_ne (Ne.symm h.1)]

/-- The queue of each listener gets what this listener makes of the message, once. -/
theorem deliver_of_mem {ls : List (Listener V)} (hnodup : (ls.map Listener.messageQueueAsync).Nodup)
    {l : Listener V} (hl : l ∈ ls) (queues : List (List V)) :
    (deliver message ls queues)[l.messageQueueAsync]? =
      queues[l.messageQueueAsync]?.map (· ++ (l.transform.apply message).toList) := by
  induction ls generalizing queues with
  | nil => cases hl
  | cons l' ls ih =>
    rw [List.map_cons, List.nodup_cons] at hnodup
    unfold deliver
    rcases List.mem_cons.mp hl with rfl | hl
    · cases happly : l.transform.apply message with
      | none =>
        simp only [deliver_of_not_mem hnodup.1, Option.toList_none, List.append_nil,
          Option.map_id_fun', id_eq]
      | some x =>
        simp only [deliver_of_not_mem hnodup.1, put_self, Option.toList_some]
    · have hne : l'.messageQueueAsync ≠ l.messageQueueAsync := fun he =>
        hnodup.1 (he ▸ List.mem_map_of_mem hl)
      split
      · exact ih hnodup.2 hl queues
      · rw [ih hnodup.2 hl, put_of_ne hne]

theorem sendTopic_fst (b : MessageBroker V) (topic : Topic) (message : Option V) :
    (b.sendTopic topic message).1 =
      { b with queues := deliver message (b.listeners topic) b.queues } := by
  unfold sendTopic
  split
  next h => rw [List.isEmpty_iff.mp h]; rfl
  next => rfl

theorem sendTopic_snd (b : MessageBroker V) (topic : Topic) (message : Option V) :
    (b.sendTopic topic message).2 = true ↔ b.listeners topic ≠ [] := by
  unfold sendTopic
  split
  next h => simp [List.isEmpty_iff.mp h]
  next h => simp [List.isEmpty_iff.not.mp h]

/-! ## One subscription -/

@[simp] theorem Subscription.step_topic (i : Nat) (x : Subscription V) (c : Call V) :
    (x.step i c).topic = x.topic := by
  unfold Subscription.step; split_ifs <;> rfl

@[simp] theorem Subscription.step_transform (i : Nat) (x : Subscription V) (c : Call V) :
    (x.step i c).transform = x.transform := by
  unfold Subscription.step; split_ifs <;> rfl

theorem Subscription.step_current (i : Nat) (x : Subscription V) (c : Call V) :
    (x.step i c).current = true ↔ x.current = true ∧ ¬ c.Stops i := by
  unfold Subscription.step
  split_ifs with hstops hcurrent <;> simp [*]

theorem Subscription.step_received {i : Nat} (x : Subscription V) (h : ¬ c.Stops i) :
    (x.step i c).received =
      if x.current then x.received ++ forListener x.topic x.transform c else x.received := by
  unfold Subscription.step
  rw [if_neg h]
  split_ifs <;> rfl

theorem Subscription.step_of_sent_none {i : Nat} (x : Subscription V) (hsent : c.sent = none)
    (h : ¬ c.Stops i) : x.step i c = x := by
  unfold Subscription.step forListener
  rw [if_neg h, hsent, List.append_nil]
  exact ite_self x

theorem getElem?_subscribe {i : Nat} (hlisten : c.listens = none) :
    (subscribe xs c)[i]? = xs[i]?.map fun x => x.step i c := by
  unfold subscribe
  rw [hlisten]
  simp

/-! ## The broker keeps to the subscriptions -/

theorem refines_init : Refines (init : MessageBroker V) [] where
  queues _ := rfl
  listeners topic l := by simp [init]
  distinct topic := by simp [init]

theorem Refines.length_queues (h : Refines b xs) : b.queues.length = xs.length := by
  apply Nat.le_antisymm
  · rw [← List.getElem?_eq_none_iff, h.queues, List.getElem?_eq_none le_rfl]; rfl
  · rw [← List.getElem?_eq_none_iff, ← Option.map_eq_none_iff (f := Subscription.received)]
    rw [← h.queues, List.getElem?_eq_none le_rfl]

theorem Refines.lt_of_mem (h : Refines b xs) {l : Listener V} (hl : l ∈ b.listeners topic) :
    l.messageQueueAsync < xs.length := by
  obtain ⟨-, x, hx, -⟩ := (h.listeners topic l).mp hl
  exact (List.getElem?_eq_some_iff.mp hx).1

theorem mem_listenTopic {topic' : Topic} {l : Listener V} :
    l ∈ (b.listenTopic topic transform).1.listeners topic' ↔
      l ∈ b.listeners topic' ∨ topic' = topic ∧ l = (b.listenTopic topic transform).2 := by
  unfold listenTopic
  by_cases htopic : topic' = topic
  · subst htopic; simp
  · simp [htopic]

/-- A listener joins with an empty queue, the next one. -/
theorem Refines.listenTopic (h : Refines b xs) (hsent : c.sent = none)
    (hstops : ∀ i, ¬ c.Stops i) (hlistens : c.listens = some (topic, transform)) :
    Refines (b.listenTopic topic transform).1 (subscribe xs c) := by
  have hsub : subscribe xs c = xs ++ [⟨topic, transform, [], true⟩] := by
    unfold subscribe
    simp only [Subscription.step_of_sent_none _ hsent (hstops _), hlistens]
    exact congrArg (· ++ _) (List.mapIdx_eq_iff.mpr (by simp))
  have hlen := h.length_queues
  rw [hsub]
  constructor
  · intro i
    unfold MessageBroker.listenTopic
    rcases Nat.lt_trichotomy i xs.length with hi | rfl | hi
    · rw [List.getElem?_append_left (hlen ▸ hi), List.getElem?_append_left hi, h.queues]
    · rw [List.getElem?_concat_length, ← hlen, List.getElem?_concat_length]; rfl
    · rw [List.getElem?_eq_none (by simp; omega), List.getElem?_eq_none (by simp; omega)]; rfl
  · intro topic' l
    rw [mem_listenTopic]
    rcases Nat.lt_trichotomy l.messageQueueAsync xs.length with hi | hi | hi
    · have hne : l ≠ (b.listenTopic topic transform).2 := by
        rintro rfl; exact absurd hlen (Nat.ne_of_lt hi)
      rw [List.getElem?_append_left hi, h.listeners]
      simp [hne]
    · have hnew : l ∉ b.listeners topic' := fun hl => Nat.ne_of_lt (h.lt_of_mem hl) hi
      rw [hi, List.getElem?_concat_length, or_iff_right hnew]
      unfold MessageBroker.listenTopic
      rcases l with ⟨t, q, f⟩
      simp only [Listener.mk.injEq, Option.mem_def, Option.some.injEq, exists_eq_left', true_and]
      simp only at hi
      constructor
      · rintro ⟨rfl, rfl, -, rfl⟩; exact ⟨rfl, rfl, rfl⟩
      · rintro ⟨rfl, rfl, rfl⟩; exact ⟨rfl, rfl, hi.trans hlen.symm, rfl⟩
    · have hnew : l ∉ b.listeners topic' := fun hl => Nat.lt_asymm (h.lt_of_mem hl) hi
      have hne : l ≠ (b.listenTopic topic transform).2 := by
        rintro rfl; exact absurd hlen.symm (Nat.ne_of_lt hi)
      rw [List.getElem?_eq_none (by simp; omega)]
      simp [hnew, hne]
  · intro topic'
    unfold MessageBroker.listenTopic
    by_cases htopic : topic' = topic
    · subst htopic
      simp only [Function.update_self, List.map_append, List.map_singleton]
      refine List.nodup_append.mpr ⟨h.distinct topic', List.nodup_singleton _, ?_⟩
      intro i hi j hj
      obtain ⟨l, hl, rfl⟩ := List.mem_map.mp hi
      rw [List.mem_singleton.mp hj, hlen]
      exact Nat.ne_of_lt (h.lt_of_mem hl)
    · simp only [Function.update_of_ne htopic]
      exact h.distinct topic'

theorem mem_eraseP {ls : List (Listener V)} (hnodup : (ls.map Listener.messageQueueAsync).Nodup)
    {l : Listener V} {i : Nat} :
    l ∈ ls.eraseP (fun l' => l'.messageQueueAsync = i) ↔ l ∈ ls ∧ l.messageQueueAsync ≠ i := by
  induction ls with
  | nil => simp
  | cons l' ls ih =>
    rw [List.map_cons, List.nodup_cons] at hnodup
    by_cases hi : l'.messageQueueAsync = i
    · rw [List.eraseP_cons_of_pos (by simpa using hi)]
      have hmem : l ∈ ls → l.messageQueueAsync ≠ i := fun hl he =>
        hnodup.1 (hi.trans he.symm ▸ List.mem_map_of_mem hl)
      grind
    · rw [List.eraseP_cons_of_neg (by simpa using hi), List.mem_cons, List.mem_cons, ih hnodup.2]
      grind

theorem Refines.mem_stopListen (h : Refines b xs) {l l' : Listener V}
    (hl : l ∈ b.listeners l.topic) : l' ∈ (b.stopListen l).listeners topic ↔
      l' ∈ b.listeners topic ∧ l'.messageQueueAsync ≠ l.messageQueueAsync := by
  unfold MessageBroker.stopListen
  by_cases htopic : topic = l.topic
  · subst htopic
    simp only [Function.update_self]
    exact mem_eraseP (h.distinct l.topic)
  · simp only [Function.update_of_ne htopic]
    refine (and_iff_left_of_imp fun hl' he => htopic ?_).symm
    obtain ⟨-, x, hx, -, hxt, -⟩ := (h.listeners _ _).mp hl
    obtain ⟨-, x', hx', -, hxt', -⟩ := (h.listeners _ _).mp hl'
    rw [he] at hx'
    rw [← hxt, ← hxt', Option.mem_unique hx hx']

/-- A listener stops; no other is touched. -/
theorem Refines.stopListen (h : Refines b xs) {l : Listener V} (hl : l ∈ b.listeners l.topic) :
    Refines (b.stopListen l) (subscribe xs (.stopListen l)) := by
  constructor
  · intro i
    rw [getElem?_subscribe rfl, Option.map_map]
    refine (h.queues i).trans (congrArg (xs[i]?.map ·) (funext fun x => ?_))
    unfold Function.comp Subscription.step forListener
    split_ifs <;> simp [Call.sent]
  · intro topic l'
    rw [h.mem_stopListen hl, h.listeners, getElem?_subscribe rfl]
    simp only [Option.mem_def, Option.map_eq_some_iff, exists_exists_and_eq_and,
      Subscription.step_current, Subscription.step_topic, Subscription.step_transform, Call.Stops]
    constructor
    · rintro ⟨⟨htopic, x, hx, hcurrent, hx'⟩, hne⟩
      exact ⟨htopic, x, hx, ⟨hcurrent, Ne.symm hne⟩, hx'⟩
    · rintro ⟨htopic, x, hx, ⟨hcurrent, hne⟩, hx'⟩
      exact ⟨⟨htopic, x, hx, hcurrent, hx'⟩, Ne.symm hne⟩
  · intro topic
    unfold MessageBroker.stopListen
    by_cases htopic : topic = l.topic
    · subst htopic
      simp only [Function.update_self]
      exact (h.distinct l.topic).sublist (List.eraseP_sublist.map _)
    · simp only [Function.update_of_ne htopic]
      exact h.distinct topic

theorem made_eq (b : MessageBroker V) (c : Call V) :
    b.made c = c.listens.map fun y =>
      { topic := y.1, messageQueueAsync := b.queues.length, transform := y.2 } := by
  cases c with
  | listenOn topic transform => simp only [made, listenOn_eq]; rfl
  | listenOnBroadcast transform => rfl
  | stopListen l => rfl
  | send topic message => rfl
  | broadcast message => rfl

/-- A message reaches the listeners on its topic. -/
theorem Refines.sendTopic (h : Refines b xs) (hsent : c.sent = some (topic, message))
    (hstops : ∀ i, ¬ c.Stops i) (hlistens : c.listens = none) :
    Refines (b.sendTopic topic message).1 (subscribe xs c) := by
  rw [sendTopic_fst]
  constructor
  · intro i
    rw [getElem?_subscribe hlistens, Option.map_map]
    by_cases hi : ∃ l ∈ b.listeners topic, l.messageQueueAsync = i
    · obtain ⟨l, hl, rfl⟩ := hi
      obtain ⟨-, x, hx, hcurrent, htopic, htransform⟩ := (h.listeners _ _).mp hl
      rw [deliver_of_mem (h.distinct topic) hl, h.queues, hx]
      simp only [Option.map_some, Function.comp, Subscription.step_received x (hstops _),
        hcurrent, if_true, htopic, htransform, forListener, hsent]
    · have hnot : i ∉ (b.listeners topic).map Listener.messageQueueAsync := by
        simpa using hi
      rw [deliver_of_not_mem hnot, h.queues]
      cases hx : xs[i]? with
      | none => rfl
      | some x =>
        have hx' : x.current = true → x.topic ≠ topic := fun hcurrent htopic =>
          hi ⟨⟨topic, i, x.transform⟩,
            (h.listeners _ _).mpr ⟨rfl, x, hx, hcurrent, htopic, rfl⟩, rfl⟩
        simp only [Option.map_some, Function.comp, Subscription.step_received x (hstops _),
          forListener, hsent]
        grind
  · intro topic' l
    rw [getElem?_subscribe hlistens, h.listeners]
    simp only [Option.mem_def, Option.map_eq_some_iff, exists_exists_and_eq_and,
      Subscription.step_current, Subscription.step_topic, Subscription.step_transform,
      hstops, not_false_eq_true, and_true]
  · exact h.distinct

/-- Every call keeps the broker to the subscriptions. -/
theorem Refines.step (h : Refines b xs) (hvalid : Valid b c) :
    Refines (b.step c) (subscribe xs c) := by
  cases c with
  | listenOn topic transform =>
    simp only [MessageBroker.step, listenOn_eq]
    exact h.listenTopic rfl (fun _ => id) rfl
  | listenOnBroadcast transform => exact h.listenTopic rfl (fun _ => id) rfl
  | stopListen l => exact h.stopListen hvalid
  | send topic message =>
    simp only [MessageBroker.step, send_eq]
    exact h.sendTopic rfl (fun _ => id) rfl
  | broadcast message => exact h.sendTopic rfl (fun _ => id) rfl

theorem refines_run {b : MessageBroker V} {xs : List (Subscription V)} (h : Refines b xs)
    {calls : List (Call V)} (hvalid : LTS.AllSteps MessageBroker.step Valid b calls) :
    Refines (LTS.run MessageBroker.step b calls) (LTS.run subscribe xs calls) :=
  LTS.run_invariant_of_guard MessageBroker.step Valid
    (fun calls b' => Refines b' (LTS.run subscribe xs calls)) h
    (fun calls b' c hb' hc => by rw [LTS.run_concat]; exact hb'.step hc) calls hvalid

/-! ## The subscriptions in a run -/

/-- Every subscription goes its own way. -/
theorem getElem?_run_subscribe {i : Nat} {x : Subscription V} (hx : xs[i]? = some x)
    (calls : List (Call V)) :
    (LTS.run subscribe xs calls)[i]? = some (LTS.run (Subscription.step i) x calls) := by
  induction calls generalizing xs x with
  | nil => exact hx
  | cons c calls ih =>
    refine ih ?_
    unfold subscribe
    have hi : i < (xs.mapIdx fun i x => x.step i c).length := by
      rw [List.length_mapIdx]; exact (List.getElem?_eq_some_iff.mp hx).1
    rw [List.getElem?_append_left hi, List.getElem?_mapIdx, hx]
    rfl

@[simp] theorem run_step_topic (i : Nat) (x : Subscription V) (calls : List (Call V)) :
    (LTS.run (Subscription.step i) x calls).topic = x.topic := by
  induction calls generalizing x with
  | nil => rfl
  | cons c calls ih => rw [LTS.run_cons, ih, Subscription.step_topic]

@[simp] theorem run_step_transform (i : Nat) (x : Subscription V) (calls : List (Call V)) :
    (LTS.run (Subscription.step i) x calls).transform = x.transform := by
  induction calls generalizing x with
  | nil => rfl
  | cons c calls ih => rw [LTS.run_cons, ih, Subscription.step_transform]

theorem run_step_current (i : Nat) (x : Subscription V) (calls : List (Call V)) :
    (LTS.run (Subscription.step i) x calls).current = true ↔
      x.current = true ∧ ∀ c ∈ calls, ¬ c.Stops i := by
  induction calls generalizing x with
  | nil => simp
  | cons c calls ih =>
    rw [LTS.run_cons, ih, Subscription.step_current, List.forall_mem_cons, and_assoc]

theorem run_step_received (i : Nat) (x : Subscription V) (calls : List (Call V)) :
    (LTS.run (Subscription.step i) x calls).received =
      x.received ++ if x.current then heard i x.topic x.transform calls else [] := by
  induction calls generalizing x with
  | nil => simp [heard]
  | cons c calls ih =>
    rw [LTS.run_cons, ih, Subscription.step_topic, Subscription.step_transform]
    rw [heard]
    by_cases hstops : c.Stops i
    · have hstep : x.step i c = { x with current := false } := if_pos hstops
      rw [hstep, if_pos hstops]
      simp
    · have hcurrent : (x.step i c).current = x.current := by
        rw [Bool.eq_iff_iff, Subscription.step_current]
        exact and_iff_left hstops
      rw [hcurrent, Subscription.step_received x hstops, if_neg hstops]
      split_ifs
      · exact List.append_assoc _ _ _
      · rfl

/-- The queue of a listener gets what a call has for the listener. No call of others stops it. -/
theorem Refines.mem_step (h : Refines b xs) (hvalid : Valid b c) {l : Listener V}
    (hl : l ∈ b.listeners topic) (hstops : ¬ c.Stops l.messageQueueAsync) :
    l ∈ (b.step c).listeners topic ∧ (b.step c).queues[l.messageQueueAsync]? =
      b.queues[l.messageQueueAsync]?.map (· ++ forListener l.topic l.transform c) := by
  have hstep := h.step hvalid
  obtain ⟨rfl, x, hx, hcurrent, htopic, htransform⟩ := (h.listeners topic l).mp hl
  have hx' := getElem?_run_subscribe hx [c]
  constructor
  · refine (hstep.listeners _ l).mpr ⟨rfl, _, hx', ?_, ?_, ?_⟩
    · exact (Subscription.step_current _ _ _).mpr ⟨hcurrent, hstops⟩
    · exact (Subscription.step_topic _ _ _).trans htopic
    · exact (Subscription.step_transform _ _ _).trans htransform
  · rw [hstep.queues, h.queues, hx]
    refine (congrArg (Option.map _) hx').trans (congrArg some ?_)
    refine (Subscription.step_received x hstops).trans ?_
    rw [if_pos hcurrent, htopic, htransform]

/-- The subscription of a new listener. -/
theorem subscribe_made (h : Refines b xs) {l : Listener V} (hl : b.made c = some l) :
    (subscribe xs c)[l.messageQueueAsync]? = some ⟨l.topic, l.transform, [], true⟩ := by
  rw [made_eq, Option.map_eq_some_iff] at hl
  obtain ⟨y, hy, rfl⟩ := hl
  unfold subscribe
  rw [hy, h.length_queues]
  simp

/-- A new listener is current and has heard nothing. -/
theorem Refines.made_step (h : Refines b xs) (hvalid : Valid b c) {l : Listener V}
    (hl : b.made c = some l) :
    l ∈ (b.step c).listeners l.topic ∧ (b.step c).queues[l.messageQueueAsync]? = some [] := by
  have hstep := h.step hvalid
  have hmade := subscribe_made h hl
  constructor
  · exact (hstep.listeners _ l).mpr ⟨rfl, _, hmade, rfl, rfl, rfl⟩
  · rw [hstep.queues]
    exact congrArg (Option.map _) hmade

theorem Refines.length_le_step (h : Refines b xs) (hvalid : Valid b c) :
    b.queues.length ≤ (b.step c).queues.length := by
  rw [h.length_queues, (h.step hvalid).length_queues, subscribe, List.length_append,
    List.length_mapIdx]
  exact Nat.le_add_right _ _

/-- The subscription of a listener made in a run, after all calls. -/
theorem subscription_made {pre : List (Call V)}
    (hvalid : LTS.AllSteps MessageBroker.step Valid init pre) {l : Listener V}
    (hl : (run pre).made c = some l) (post : List (Call V)) :
    (subscriptions (pre ++ c :: post))[l.messageQueueAsync]? =
      some (LTS.run (Subscription.step l.messageQueueAsync)
        ⟨l.topic, l.transform, [], true⟩ post) := by
  unfold subscriptions
  rw [LTS.run_append, LTS.run_cons]
  exact getElem?_run_subscribe (subscribe_made (refines_run refines_init hvalid) hl) post

/-- Every subscription is that of a listener made in the run. -/
theorem exists_made {calls : List (Call V)}
    (hvalid : LTS.AllSteps MessageBroker.step Valid init calls) {i : Nat} {x : Subscription V}
    (hx : (subscriptions calls)[i]? = some x) :
    ∃ pre c post l, calls = pre ++ c :: post ∧ (run pre).made c = some l ∧
      l.messageQueueAsync = i := by
  induction calls using List.reverseRecOn generalizing x with
  | nil => cases hx
  | append_singleton calls c ih =>
    obtain ⟨hpre, -⟩ := LTS.allSteps_concat.mp hvalid
    have hlen := (refines_run refines_init hpre).length_queues
    by_cases hi : i < (subscriptions calls).length
    · obtain ⟨pre, c', post, l, rfl, hl⟩ := ih hpre (List.getElem?_eq_getElem hi)
      exact ⟨pre, c', post ++ [c], l, by simp, hl⟩
    · rw [not_lt] at hi
      unfold subscriptions at hx hi
      rw [LTS.run_concat, subscribe, List.getElem?_append_right (by simpa using hi),
        List.length_mapIdx] at hx
      cases hlistens : c.listens with
      | none => simp [hlistens] at hx
      | some y =>
        have hlast : i - (LTS.run subscribe [] calls).length = 0 := by
          have := (List.getElem?_eq_some_iff.mp hx).1
          simp [hlistens] at this
          omega
        refine ⟨calls, c, [], ⟨y.1, _, y.2⟩, rfl, ?_, hlen.trans (Nat.le_antisymm hi (by omega))⟩
        rw [made_eq, hlistens]; rfl

/-- The broker has a listener on exactly the topics that one is listening on. -/
theorem listeners_ne_nil_iff {calls : List (Call V)}
    (hvalid : LTS.AllSteps MessageBroker.step Valid init calls) :
    (run calls).listeners topic ≠ [] ↔ Listening calls topic := by
  have href := refines_run refines_init hvalid
  constructor
  · intro hne
    obtain ⟨l, hl⟩ := List.exists_mem_of_ne_nil _ hne
    obtain ⟨-, x, hx, hcurrent, htopic, -⟩ := (href.listeners topic l).mp hl
    obtain ⟨pre, c, post, l', rfl, hl', hqueue⟩ := exists_made hvalid hx
    have hmade := subscription_made (LTS.allSteps_append.mp hvalid).1 hl' post
    rw [hqueue] at hmade
    cases hmade.symm.trans hx
    rw [run_step_current] at hcurrent
    rw [run_step_topic] at htopic
    refine ⟨pre, c, post, l', rfl, hl', htopic, hqueue ▸ hcurrent.2⟩
  · rintro ⟨pre, c, post, l, rfl, hl, rfl, hstops⟩
    have hmade := subscription_made (LTS.allSteps_append.mp hvalid).1 hl post
    refine List.ne_nil_of_mem ((href.listeners l.topic l).mpr ⟨rfl, _, hmade, ?_, ?_, ?_⟩)
    · exact (run_step_current _ _ _).mpr ⟨rfl, hstops⟩
    · exact run_step_topic _ _ _
    · exact run_step_transform _ _ _

/-- The queue of every listener holds what was sent to its topic until it was stopped, through
its transform and in order; `send` tells whether somebody listens. -/
theorem broker_delivers (calls : List (Call V))
    (hvalid : LTS.AllSteps MessageBroker.step Valid init calls) :
    (∀ pre c post l, calls = pre ++ c :: post → (run pre).made c = some l →
      (run calls).queues[l.messageQueueAsync]? =
        some (heard l.messageQueueAsync l.topic l.transform post)) ∧
    ∀ pre post topic message, calls = pre ++ .send topic message :: post →
      (((run pre).send topic message).2 = true ↔ Listening pre topic) := by
  constructor
  · rintro pre c post l rfl hl
    have hmade := subscription_made (LTS.allSteps_append.mp hvalid).1 hl post
    rw [run, (refines_run refines_init hvalid).queues]
    refine (congrArg (Option.map _) hmade).trans (congrArg some ?_)
    rw [run_step_received]
    rfl
  · rintro pre post topic message rfl
    rw [send_eq, sendTopic_snd, listeners_ne_nil_iff (LTS.allSteps_append.mp hvalid).1]

/-- Two listeners of one topic, one of which drops `0` and stops before the last message. -/
def dropsZero : List (Call Nat) :=
  [.listenOn (.name "broadcast") none,
   .listenOnBroadcast (some fun m => if m = some 0 then none else m.map (· + 1)),
   .broadcast (some 0), .send (.name "broadcast") (some 4),
   .stopListen ⟨.name "broadcast", 0, none⟩, .broadcast (some 7)]

theorem dropsZero_delivered : (run dropsZero).queues[1]? = some [5, 8] := by
  have hvalid : LTS.AllSteps MessageBroker.step Valid init dropsZero := by
    intro x hx
    simp only [dropsZero, LTS.trace, List.mem_cons, List.not_mem_nil, or_false] at hx
    rcases hx with rfl | rfl | rfl | rfl | rfl | rfl
    · trivial
    · trivial
    · trivial
    · trivial
    · exact List.mem_cons_self
    · trivial
  exact (broker_delivers dropsZero hvalid).1 [_] _ _ _ rfl rfl

end MessageBroker

end Raidex
