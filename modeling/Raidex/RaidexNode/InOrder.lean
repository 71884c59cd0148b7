import Raidex.RaidexNode.Streaming

/-!
# Raidex.RaidexNode.InOrder

What a listener can get at most, whatever becomes of its task.

* `StreamingRequestTask.backlog`: what the task may still read.
* `Link.Ordered`: queues and backlogs hold what was sent on the topic, in order.
* `listeners_in_order`: no listener gets a message that was not sent, or one twice or out of turn.
-/

namespace Raidex
namespace RaidexNode

open Json (Text)
open scoped List

/-- A response that is hung up has lost its listener of the broker. -/
def StreamingRequestTask.backlog (task : StreamingRequestTask) (queues : List (List Text)) :
    List Text :=
  match task.response with
  | none => []
  | some r => if r.phase = .hungUp then [] else (queues[r.queue]?.getD []).drop r.read

namespace Link

variable {C : Crypto} {K : Codec} {s : Link} {t : Nat} {task task' : StreamingRequestTask}
  {r r' : Response} {i : Input} {is : List Input}

theorem backlog_live (h : task.Live) (queues : List (List Text)) :
    task.backlog queues = task.unread queues := by
  unfold StreamingRequestTask.backlog StreamingRequestTask.unread
  cases hr : task.response with
  | none => rfl
  | some r => exact if_neg (h r hr)

theorem backlog_not_live (h : ¬ task.Live) (queues : List (List Text)) :
    task.backlog queues = [] := by
  unfold StreamingRequestTask.backlog
  cases hr : task.response with
  | none => rfl
  | some r =>
    refine if_pos ?_
    by_contra hphase
    refine h fun r' hr' => ?_
    cases hr.symm.trans hr'
    exact hphase

/-- What was sent on a topic. -/
def sent (topic : Topic) (is : List Input) : List Text := is.flatMap (Input.forTopic topic)

/-- What the server has for the task, and what its listeners have got before, was sent. -/
structure InOrder (C : Crypto) (K : Codec) (is : List Input) (queues : List (List Text))
    (task : StreamingRequestTask) : Prop where
  backlog : task.backlog queues <+ sent task.topic is
  heard : ∀ x ∈ task.listeners, x.2.messageQueue ++ heard C K x.2.kind (task.backlog queues) <+
    heard C K x.2.kind (sent task.topic is)

theorem heard_sublist {kind : ListenerKind} {xs ys : List Text} (h : xs <+ ys) :
    heard C K kind xs <+ heard C K kind ys := (h.map _).filterMap _

theorem sent_concat (topic : Topic) (is : List Input) (i : Input) :
    sent topic (is ++ [i]) = sent topic is ++ i.forTopic topic := by
  rw [sent, List.flatMap_append, List.flatMap_singleton]
  rfl

/-- The task is as it was, but for what is new on its topic and for new listeners. -/
theorem InOrder.grow {queues queues' : List (List Text)} (h : InOrder C K is queues task)
    (htopic : task'.topic = task.topic) {more : List Text}
    (hbacklog : task'.backlog queues' <+ task.backlog queues ++ more)
    (hmore : more <+ i.forTopic task.topic)
    (hlisteners : ∀ x ∈ task'.listeners, x ∈ task.listeners ∨ x.2.messageQueue = []) :
    InOrder C K (is ++ [i]) queues' task' := by
  have hsent : task'.backlog queues' <+ sent task'.topic (is ++ [i]) := by
    rw [htopic, sent_concat]
    exact hbacklog.trans (h.backlog.append hmore)
  refine ⟨hsent, ?_⟩
  intro x hx
  rcases hlisteners x hx with hx | hnil
  · rw [htopic, sent_concat, heard_append]
    calc x.2.messageQueue ++ RaidexNode.heard C K x.2.kind (task'.backlog queues')
        <+ x.2.messageQueue ++ RaidexNode.heard C K x.2.kind (task.backlog queues ++ more) :=
          (heard_sublist hbacklog).append_left _
      _ = x.2.messageQueue ++ RaidexNode.heard C K x.2.kind (task.backlog queues) ++
            RaidexNode.heard C K x.2.kind more := by rw [heard_append, List.append_assoc]
      _ <+ _ := (h.heard x hx).append (heard_sublist hmore)
  · rw [hnil]
    exact heard_sublist hsent

/-- A line goes from the backlog to the listeners, or is lost. -/
theorem InOrder.serveLine {queues : List (List Text)} (h : InOrder C K is queues task)
    (hr : task.response = some r) (hphase : r.phase = .streaming ∨ r.phase = .closing)
    {data : Text} (hnext : r.next queues = some data) (hi : i.forTopic task.topic = []) :
    InOrder C K (is ++ [i]) queues (task.serveLine C K r data) := by
  have hbefore : task.backlog queues = data :: (task.serveLine C K r data).backlog queues := by
    have hnot : r.phase ≠ .hungUp := by
      rcases hphase with hp | hp <;> rw [hp] <;> decide
    have hafter : ∀ e, r.phase.afterLine e ≠ .hungUp := by
      rcases hphase with hp | hp <;> rw [hp] <;> intro e <;> cases e <;>
        simp [Response.Phase.afterLine]
    unfold StreamingRequestTask.backlog StreamingRequestTask.serveLine
    simp only [hr, if_neg hnot, if_neg (hafter _)]
    exact unread_next hnext
  have htopic : (task.serveLine C K r data).topic = task.topic := rfl
  have hbacklog := h.backlog
  rw [hbefore] at hbacklog
  refine ⟨?_, ?_⟩
  · rw [htopic, sent_concat, hi, List.append_nil]
    exact (List.sublist_cons_self _ _).trans hbacklog
  · intro x hx
    obtain ⟨l, hl, hkind, hputs⟩ := List.exists_of_mem_zip (run_puts (C := C) (K := K) data _) hx
    have hheard := h.heard _ hl
    rw [hbefore, ← List.singleton_append, heard_append, ← List.append_assoc] at hheard
    rw [htopic, sent_concat, hi, List.append_nil, hkind]
    refine List.Sublist.trans (List.Sublist.append_right ?_ _) hheard
    rcases hputs with heq | heq
    · rw [heq]
      exact List.sublist_append_left _ _
    · rw [heq]

def Ordered (C : Crypto) (K : Codec) (is : List Input) (s : Link) : Prop :=
  ∀ (t : Nat) (task : StreamingRequestTask), s.client.tasks[t]? = some task →
    InOrder C K is s.broker.queues task

theorem taken_sublist (htask : s.client.tasks[t]? = some task) :
    taken t (s, i) <+ i.forTopic task.topic := by
  unfold taken
  rw [htask]
  dsimp only
  split
  · exact List.Sublist.refl _
  · exact List.nil_sublist _

theorem Ordered.step (h : Ordered C K is s) (hsound : Sound s) (hadmits : Admits s i) :
    Ordered C K (is ++ [i]) (s.step C K i) := by
  intro t task' htask'
  rcases Turn.of_step htask' with ⟨task, htask, hturn⟩ | ⟨htask, topic, kind, rfl, rfl⟩
  · have horder := h t task htask
    rcases hturn.place_cases with
      ⟨hresponse, hmem⟩ | ⟨rfl, r, data, hr, hphase, hnext, rfl⟩ | ⟨rfl, hr, rfl⟩
    · refine horder.grow hturn.topic_eq ?_ (taken_sublist htask) fun x hx =>
        (hmem x hx).imp_right And.right
      by_cases hlive' : task'.Live
      · have hlive : task.Live := by
          intro r hr hphase
          rw [hr, Option.map_some] at hresponse
          obtain ⟨r', hr', -⟩ := Option.map_eq_some_iff.mp hresponse
          rcases hturn.response_cases hr' with ⟨r₁, hr₁, hgoes⟩ | ⟨-, hnone, -⟩
          · cases hr.symm.trans hr₁
            exact hlive' r' hr' (hgoes.hungUp hphase)
          · cases hr.symm.trans hnone
        have hunread := hsound.unread_step hadmits htask hlive htask' hlive' hresponse
        simp only [unread, htask, htask'] at hunread
        rw [backlog_live hlive', backlog_live hlive, hunread]
      · rw [backlog_not_live hlive']
        exact List.nil_sublist _
    · exact horder.serveLine hr hphase hnext rfl
    · have hnil : StreamingRequestTask.backlog
          { task with response := some ⟨s.broker.queues.length, 0, .waiting⟩ }
          (s.step C K (.connect t)).broker.queues = [] := by
        unfold StreamingRequestTask.backlog
        simp only [(hsound.connects htask hr).2]
        rfl
      refine horder.grow rfl ?_ (List.nil_sublist _) fun x hx => .inl hx
      rw [hnil]
      exact List.nil_sublist _
  · refine ⟨List.nil_sublist _, ?_⟩
    intro x hx
    rw [List.mem_singleton.mp hx]
    exact List.nil_sublist _

/-- Whatever becomes of its task, a listener gets messages that were sent on its topic, in their
order and none twice; a line that breaks the task may reach some listeners and not others. -/
theorem listeners_in_order (C : Crypto) (K : Codec) {is : List Input}
    (hadmits : LTS.AllSteps (step C K) Admits init is) {task : StreamingRequestTask}
    (htask : task ∈ (run C K is).client.tasks) {x : Nat × Listener} (hx : x ∈ task.listeners) :
    x.2.messageQueue <+ heard C K x.2.kind (sent task.topic is) := by
  have hordered : Ordered C K is (run C K is) ∧ Sound (run C K is) :=
    LTS.run_invariant_of_guard (step C K) Admits (fun is s => Ordered C K is s ∧ Sound s)
      ⟨fun t task h => (by cases h), sound_init⟩
      (fun _ _ _ h hi => ⟨h.1.step h.2 hi, h.2.step hi⟩) is hadmits
  obtain ⟨t, ht⟩ := List.mem_iff_getElem?.mp htask
  exact (List.sublist_append_left _ _).trans ((hordered.1 t task ht).heard x hx)

/-- The second message is a number, and breaks the task. -/
def broken : List Input :=
  [.listenOn (.name "broadcast") .message, .connect 0,
   .elsewhere (.send (.name "broadcast") (some (Json.text "hello"))), .respond 0,
   .elsewhere (.broadcast (some (Json.text "5"))), .read 0, .read 0]

theorem broken_in_order : ∃ task l, (run .plain noCodec broken).client.tasks[0]? = some task ∧
    (0, l) ∈ task.listeners ∧ ¬ task.Open ∧
      l.messageQueue <+ heard .plain noCodec l.kind [Json.text "hello", Json.text "5"] := by
  have hadmits : LTS.AllSteps (step .plain noCodec) Admits init broken := by
    intro x hx
    simp only [broken, LTS.trace, List.mem_cons, List.not_mem_nil, or_false] at hx
    rcases hx with rfl | rfl | rfl | rfl | rfl | rfl | rfl <;> trivial
  have hsent : sent (.name "broadcast") broken = [Json.text "hello", Json.text "5"] := rfl
  refine ⟨_, _, rfl, List.mem_cons_self, ?_, ?_⟩
  · intro hopen
    rcases hopen ⟨0, 2, .failed⟩ rfl with hp | hp <;> cases hp
  · rw [← hsent]
    exact listeners_in_order .plain noCodec hadmits List.mem_cons_self List.mem_cons_self

end Link

end RaidexNode
end Raidex
