import PssClient.Client.InFlight
import PssClient.Client.Tracked

/-!
# Old failures and new connections

A broken connection fails its read and all its writes, and the handler of each of them closes the
client's socket, whatever that is connected to by then. The handlers run on the I/O thread, while
the worker reconnects.

* `TaggedThreads` / `step` — the threads of a client with the tags of its operations: the connection
  attempt during which each was started. `closes` has every `close_socket` of a failed operation.
* `Settled` — the condition: a connect that the socket takes up begins when no read or write of an
  earlier attempt can fail any more, and no handler of one is on its way to `close_socket`.
* `OwnAttempt` — the invariant: what may yet fail or close belongs to the attempt of the socket.
* `closes_own_attempt` — the result, and `new_attempt_closed` the run in which the failure of an old
  write closes the socket that `reconnect` has just begun to connect.
-/

namespace PssClient

open Machine Pool Tracked

/-- The operation has failed, or it goes on and may yet fail. -/
def Completion.unfinished : Completion → Bool
  | .readFailed | .writeFailed => true
  | .sent rest sendLength => decide (rest.drop sendLength ≠ [])
  | _ => false

/-- The handler may close the socket, or goes on with its write. -/
def IoAccess.unfinished : IoAccess → Bool
  | .testClose | .close | .write _ => true
  | _ => false

theorem Completion.kind_of_unfinished {c : Completion} (h : c.unfinished = true) :
    c.kind ≠ .connect := by
  rintro hkind
  cases c with
  | connected => cases h
  | connectFailed => cases h
  | _ => cases hkind

variable {F : Type*} {fmt : IpacketFormat F}

/-! ## The threads with the tags of the operations -/

/-- The threads of a client with the tags of its operations. The tags are not in the source: they
say to which attempt an operation belongs, and are carried along by every step. -/
structure TaggedThreads (F : Type*) where
  threads : Threads F
  tags : Tags := {}
  -- the tag of the operation whose handler runs
  handling : OpTag := ⟨0, 0, .connect⟩
  -- the calls of `close_socket` by failing reads and writes: the attempt of the operation and the
  -- attempt that the socket belonged to
  closes : List (Nat × Nat) := []

namespace TaggedThreads

/-- The tags after an access of a handler. The rest of a write belongs to the same write. -/
def afterIo (s : Client F) (handling : OpTag) (g : Tags) : IoAccess → Tags
  | .read => g.startOp .read s
  | .write _ => g.launch s handling
  | .close => g.closeSocket
  | _ => g

def afterTask (s : Client F) (g : Tags) : TaskAccess → Tags
  | .connect => g.startConnect s
  | _ => g

def afterCall (s : Client F) (g : Tags) : CallAccess → Tags
  | .close => g.closeSocket
  | .reconnect a => afterTask s g a
  | .write _ => g.startOp .write s
  | _ => g

/-- The tags after a step. -/
def tagsAfter (t : TaggedThreads F) : Threads.Action → Tags
  | .complete i _ => t.tags.complete i
  | .handle i => { t.tags with completed := t.tags.completed.eraseIdx i }
  | .go .io =>
    match t.threads.io with
    | a :: _ => afterIo t.threads.client t.handling t.tags a
    | [] => t.tags
  | .go .worker =>
    match t.threads.worker with
    | a :: _ => afterTask t.threads.client t.tags a
    | [] => t.tags
  | .go .round =>
    match t.threads.round with
    | a :: _ => afterTask t.threads.client t.tags a
    | [] => t.tags
  | .go .call =>
    match t.threads.call with
    | a :: _ => afterCall t.threads.client t.tags a
    | [] => t.tags
  | _ => t.tags

/-- The operation whose handler runs. -/
def handlingAfter (t : TaggedThreads F) : Threads.Action → OpTag
  | .handle i => t.tags.completed[i]?.getD t.handling
  | _ => t.handling

/-- The `socket_.close()` of a failing read or write. -/
def closing (t : TaggedThreads F) : Threads.Action → List (Nat × Nat)
  | .go .io =>
    match t.threads.io with
    | .close :: _ => [(t.handling.attempt, t.tags.attempt)]
    | _ => []
  | _ => []

def step (fmt : IpacketFormat F) (t : TaggedThreads F) (a : Threads.Action) :
    Option (TaggedThreads F) :=
  (t.threads.step fmt a).map fun threads =>
    { threads := threads
      tags := t.tagsAfter a
      handling := t.handlingAfter a
      closes := t.closes ++ t.closing a }

/-- The client when `start` has returned, with its first connect under way. -/
def start (transport : Transport) (connectId : Nat) (timerCheckSeconds : Int) (pf : F) :
    TaggedThreads F where
  threads := Threads.start transport connectId timerCheckSeconds pf
  tags := (Tracked.start transport connectId timerCheckSeconds pf).tags

/-- A stream client of the example program. -/
def started : TaggedThreads CpacketFormat :=
  start .tcp 1 30 (CpacketFormat.new (Vector.replicate maxBufferSize 0))

/-- Every run of the threads can be tagged. -/
theorem exists_tagged {t : TaggedThreads F} {s : Threads F} {as : List Threads.Action}
    (h : run (Threads.step fmt) t.threads as = some s) :
    ∃ t', run (step fmt) t as = some t' ∧ t'.threads = s := by
  have hsame : ∀ (t : TaggedThreads F) a, (step fmt t a).map threads = t.threads.step fmt a := by
    intro t a
    rw [step, Option.map_map]
    exact Option.map_id'
  rw [← run_map threads hsame] at h
  exact Option.map_eq_some_iff.mp h

/-! ## The condition and the invariant -/

/-- When a connect begins that the socket takes up, no read or write is outstanding, none that has
failed or has still something to write waits for its handler, and the handler that is running has
neither a `close_socket` nor a write to come. -/
def Settled (s : Threads F) (a : Threads.Action) : Prop :=
  s.startsConnect a → ¬ s.client.busy →
    (∀ op ∈ s.client.outstanding, op.kind = .connect) ∧
      (∀ c ∈ s.client.completed, c.unfinished = false) ∧ ∀ b ∈ s.io, b.unfinished = false

instance (s : Threads F) (a : Threads.Action) : Decidable (Settled s a) :=
  inferInstanceAs (Decidable (_ → _ → _ ∧ _ ∧ _))

/-- The operation belongs to the attempt, if it is a read or a write; a connect that has been given
up is of no harm. -/
def OpOf (attempt : Nat) (op : Op) (tag : OpTag) : Prop :=
  op.kind = tag.kind ∧ (op.kind ≠ .connect → tag.attempt = attempt)

/-- The completed operation belongs to the attempt, if it may yet fail: as a failure, or as a write
of which a part is still to be written. -/
def CompletionOf (attempt : Nat) (c : Completion) (tag : OpTag) : Prop :=
  c.kind = tag.kind ∧ (c.unfinished = true → tag.attempt = attempt)

/-- The operation whose handler runs belongs to the attempt, if that may close the socket or goes on
with its write. -/
def HandlerOf (attempt : Nat) (a : IoAccess) (tag : OpTag) : Prop :=
  (a.unfinished = true → tag.attempt = attempt) ∧ ∀ rest, a = .write rest → tag.kind = .write

theorem handed_ofAttempt (attempt : Nat) :
    Handed (OpOf attempt) (CompletionOf attempt) attempt where
  ends := by
    intro op c tag hop hkind
    refine ⟨hkind.trans hop.1, fun hunfinished => hop.2 ?_⟩
    rw [← hkind]
    exact Completion.kind_of_unfinished hunfinished
  fresh := fun _ _ _ => ⟨rfl, fun _ => rfl⟩
  rest := fun _ _ _ hsent hrest => ⟨hsent.1, fun _ => hsent.2 (decide_eq_true hrest)⟩

/-- The invariant: what is outstanding, what waits for its handler and what the running handler has
still to do is of the present attempt, and every call of `close_socket` so far was for the attempt
of its own. -/
structure OwnAttempt (t : TaggedThreads F) : Prop where
  tags : Tagged (OpOf t.tags.attempt) (CompletionOf t.tags.attempt) t.threads.client t.tags
  running : ∀ a ∈ t.threads.io, HandlerOf t.tags.attempt a t.handling
  closes : ∀ p ∈ t.closes, p.1 = p.2

/-! ## One step -/

/-- Only a connect begins an attempt. -/
theorem attempt_afterIo (s : Client F) (handling : OpTag) (g : Tags) (a : IoAccess) :
    (afterIo s handling g a).attempt = g.attempt := by
  have hlaunch : ∀ tag (g : Tags), (Tags.launch s tag g).attempt = g.attempt := by
    intro tag g
    unfold Tags.launch
    split <;> rfl
  cases a with
  | read => exact hlaunch _ _
  | write rest => exact hlaunch _ _
  | _ => rfl

theorem tagged_io {attempt : Nat} {s : Client F} {g : Tags} {tag : OpTag} {a : IoAccess}
    (hattempt : g.attempt = attempt) (h : Tagged (OpOf attempt) (CompletionOf attempt) s g)
    (ha : HandlerOf attempt a tag) :
    Tagged (OpOf attempt) (CompletionOf attempt) (a.effect s) (afterIo s tag g a) := by
  subst hattempt
  cases a with
  | read =>
    have hread : Tagged _ _ (s.startOp .read) (g.startOp Op.read.kind s) :=
      tagged_startOp (handed_ofAttempt _) nofun h
    exact hread
  | write rest =>
    exact tagged_launch (handed_ofAttempt _) ⟨(ha.2 rest rfl).symm, fun _ => ha.1 rfl⟩ h
  | close => exact tagged_congr (tagged_closeSocket (handed_ofAttempt _) h) rfl rfl
  | setConnect | post | setRecvTime | setWriteTime | testClose => exact tagged_congr h rfl rfl

/-- A connect keeps the tags as they are, or begins an attempt when nothing of an earlier one is
left that may fail. -/
theorem tagged_connect {s : Client F} {g : Tags}
    (h : Tagged (OpOf g.attempt) (CompletionOf g.attempt) s g)
    (hsettled : ¬ s.busy → (∀ op ∈ s.outstanding, op.kind = .connect) ∧
      ∀ c ∈ s.completed, c.unfinished = false) :
    Tagged (OpOf (g.startConnect s).attempt) (CompletionOf (g.startConnect s).attempt)
      s.startConnect (g.startConnect s) := by
  obtain ⟨houtstanding, hcompleted⟩ := startConnect_ops s
  have hsame : s.busy → (g.startConnect s).attempt = g.attempt := fun hbusy => if_pos hbusy
  constructor
  · rw [houtstanding]
    refine forall₂_concat ?_ ⟨rfl, fun hkind => absurd rfl hkind⟩
    by_cases hbusy : s.busy
    · rw [hsame hbusy]
      exact h.outstanding
    · refine forall₂_imp_of_mem h.outstanding fun op hop tag htag => ⟨htag.1, fun hkind => ?_⟩
      exact absurd ((hsettled hbusy).1 op hop) hkind
  · rw [hcompleted]
    by_cases hbusy : s.busy
    · rw [hsame hbusy]
      exact h.completed
    · refine forall₂_imp_of_mem h.completed fun c hc tag htag => ⟨htag.1, fun hunfinished => ?_⟩
      rw [(hsettled hbusy).2 c hc] at hunfinished
      cases hunfinished

/-- An `async_connect`, on whichever thread. -/
theorem ownAttempt_connect {t : TaggedThreads F} {a : Threads.Action} {threads : Threads F}
    (h : OwnAttempt t) (hstarts : t.threads.startsConnect a) (hG : Settled t.threads a)
    (hclient : threads.client = t.threads.client.startConnect) (hio : threads.io = t.threads.io)
    (closes : List (Nat × Nat)) (hcloses : closes = []) :
    OwnAttempt
      { threads := threads
        tags := t.tags.startConnect t.threads.client
        handling := t.handling
        closes := t.closes ++ closes } where
  tags := by
    show Tagged _ _ threads.client _
    rw [hclient]
    exact tagged_connect h.tags fun hbusy => ⟨(hG hstarts hbusy).1, (hG hstarts hbusy).2.1⟩
  running := fun b hb => by
    rw [hio] at hb
    by_cases hbusy : t.threads.client.busy
    · have hsame : (t.tags.startConnect t.threads.client).attempt = t.tags.attempt := if_pos hbusy
      show HandlerOf (t.tags.startConnect t.threads.client).attempt b t.handling
      rw [hsame]
      exact h.running b hb
    · have hnone := (hG hstarts hbusy).2.2 b hb
      refine ⟨fun hunfinished => ?_, fun rest heq => ?_⟩
      · rw [hnone] at hunfinished
        cases hunfinished
      · rw [heq] at hnone
        cases hnone
  closes := by
    rw [hcloses, List.append_nil]
    exact h.closes

/-- A step that leaves the tags, what runs and what was closed as they are. -/
theorem OwnAttempt.same {t : TaggedThreads F} (h : OwnAttempt t) {threads : Threads F}
    (houtstanding : threads.client.outstanding = t.threads.client.outstanding)
    (hcompleted : threads.client.completed = t.threads.client.completed)
    (hio : threads.io = t.threads.io) :
    OwnAttempt { t with threads := threads, closes := t.closes ++ [] } where
  tags := tagged_congr h.tags houtstanding hcompleted
  running := fun a ha => h.running a (hio ▸ ha)
  closes := by
    rw [List.append_nil]
    exact h.closes

/-- **A handler is of its operation's attempt.** What it may still close or write belongs to the
operation that it is the handler of: that is so for the failures, which close the socket, and for a
write that goes on; nothing else that a handler does looks at the attempt. -/
theorem handlerOf_accesses {attempt : Nat} {s : Client F} {c : Completion} {tag : OpTag}
    (hc : CompletionOf attempt c tag) {r : Client F × List IoAccess}
    (hbegin : handlerAccesses fmt s c = some r) :
    (∀ a ∈ r.2, HandlerOf attempt a tag) ∧ r.1.outstanding = s.outstanding ∧
      r.1.completed = s.completed := by
  -- an access that neither closes nor writes
  have hquiet : ∀ a : IoAccess, a.unfinished = false → HandlerOf attempt a tag := by
    intro a ha
    refine ⟨fun hunfinished => ?_, fun rest heq => ?_⟩
    · rw [ha] at hunfinished
      cases hunfinished
    · rw [heq] at ha
      cases ha
  cases c with
  | connected | connectFailed =>
    obtain rfl := Option.some.inj hbegin
    refine ⟨fun a ha => hquiet a ?_, rfl, rfl⟩
    simp only [List.mem_cons, List.not_mem_nil, or_false] at ha
    rcases ha with rfl | rfl | rfl | rfl <;> rfl
  | received bytes =>
    obtain ⟨packets, -, rfl⟩ := Option.map_eq_some_iff.mp hbegin
    refine ⟨fun a ha => hquiet a ?_, rfl, rfl⟩
    rcases List.mem_append.mp ha with hpost | hend
    · obtain ⟨p, -, rfl⟩ := List.mem_map.mp hpost
      rfl
    · simp only [List.mem_cons, List.not_mem_nil, or_false] at hend
      rcases hend with rfl | rfl <;> rfl
  -- the failure of an operation that is still of the present attempt
  | readFailed | writeFailed =>
    obtain rfl := Option.some.inj hbegin
    refine ⟨fun a ha => ?_, rfl, rfl⟩
    have hown : tag.attempt = attempt := hc.2 rfl
    refine ⟨fun _ => hown, fun rest heq => ?_⟩
    subst heq
    simp at ha
  | sent rest sendLength =>
    obtain rfl := Option.some.inj hbegin
    refine ⟨fun a ha => ?_, rfl, rfl⟩
    dsimp only at ha
    split at ha
    case isTrue => exact List.mem_singleton.mp ha ▸ hquiet .setWriteTime rfl
    case isFalse hrest =>
      obtain rfl := List.mem_singleton.mp ha
      exact ⟨fun _ => hc.2 (decide_eq_true hrest), fun _ _ => hc.1.symm⟩

/-- The I/O thread goes on with its handler. -/
theorem ownAttempt_io {t : TaggedThreads F} {threads : Threads F} {a : IoAccess}
    {rest : List IoAccess} (h : OwnAttempt t) (hget : t.threads.io = a :: rest)
    (hclient : threads.client = a.effect t.threads.client)
    (hio : threads.io = a.next t.threads.client ++ rest) :
    OwnAttempt
      { threads := threads
        tags := t.tagsAfter (.go .io)
        handling := t.handling
        closes := t.closes ++ t.closing (.go .io) } := by
  have htags : t.tagsAfter (.go .io) = afterIo t.threads.client t.handling t.tags a := by
    simp only [tagsAfter, hget]
  have hattempt := attempt_afterIo t.threads.client t.handling t.tags a
  have hrunning := h.running
  rw [hget] at hrunning
  obtain ⟨ha, hrest⟩ := List.forall_mem_cons.mp hrunning
  refine ⟨?_, fun b hb => ?_, fun p hp => ?_⟩
  · show Tagged (OpOf (t.tagsAfter (.go .io)).attempt)
      (CompletionOf (t.tagsAfter (.go .io)).attempt) threads.client (t.tagsAfter (.go .io))
    rw [htags, hattempt, hclient]
    exact tagged_io rfl h.tags ha
  · show HandlerOf (t.tagsAfter (.go .io)).attempt b t.handling
    rw [htags, hattempt]
    rw [hio] at hb
    rcases List.mem_append.mp hb with hnext | hold
    · -- behind the test of `is_client_close_`
      cases a with
      | testClose =>
        refine ⟨fun _ => ha.1 rfl, fun bytes heq => ?_⟩
        subst heq
        simp only [IoAccess.next] at hnext
        split at hnext <;> simp at hnext
      | _ => cases hnext
    · exact hrest b hold
  · rcases List.mem_append.mp hp with hold | hnew
    · exact h.closes p hold
    · simp only [closing, hget] at hnew
      split at hnew
      case h_1 heq =>
        obtain rfl := List.mem_singleton.mp hnew
        obtain ⟨rfl, -⟩ := List.cons.inj heq
        exact ha.1 rfl
      case h_2 => cases hnew

/-- A call of the manager goes on. -/
theorem ownAttempt_access {t : TaggedThreads F} {a : CallAccess} {rest : List CallAccess}
    {r : Client F × List CallAccess} (h : OwnAttempt t) (hG : Settled t.threads (.go .call))
    (hget : t.threads.call = a :: rest) (hperform : a.perform fmt t.threads.client = some r) :
    OwnAttempt
      { threads := { t.threads with
          client := r.1
          call := r.2 ++ rest
          captures := t.threads.captures ++ a.captures }
        tags := t.tagsAfter (.go .call)
        handling := t.handling
        closes := t.closes ++ [] } := by
  have htags : t.tagsAfter (.go .call) = afterCall t.threads.client t.tags a := by
    simp only [tagsAfter, hget]
  rw [htags]
  -- what a call starts or closes
  have hother : afterCall t.threads.client t.tags a = afterIo t.threads.client t.handling t.tags
      .testClose → r.1.outstanding = t.threads.client.outstanding →
      r.1.completed = t.threads.client.completed → OwnAttempt
      { threads := { t.threads with
          client := r.1
          call := r.2 ++ rest
          captures := t.threads.captures ++ a.captures }
        tags := afterCall t.threads.client t.tags a
        handling := t.handling
        closes := t.closes ++ [] } := by
    intro hsame houtstanding hcompleted
    rw [hsame]
    exact h.same houtstanding hcompleted rfl
  cases a with
  | setClientClose | clearConnect | erase | refuse =>
    obtain rfl := Option.some.inj hperform
    exact hother rfl rfl rfl
  | close =>
    obtain rfl := Option.some.inj hperform
    refine ⟨?_, h.running, ?_⟩
    · exact tagged_congr (tagged_closeSocket (handed_ofAttempt _) h.tags) rfl rfl
    · show ∀ p ∈ t.closes ++ [], p.1 = p.2
      rw [List.append_nil]
      exact h.closes
  | reconnect a =>
    obtain rfl := Option.some.inj hperform
    cases a with
    | connect =>
      refine ownAttempt_connect h ?_ hG ?_ ?_ _ ?_
      · rw [Threads.startsConnect, hget]
        rfl
      · rfl
      · rfl
      · rfl
    | message | checkTimeout | testConnect => exact hother rfl rfl rfl
  | format commandId data length =>
    simp only [CallAccess.perform] at hperform
    split at hperform
    case isTrue =>
      obtain rfl := Option.some.inj hperform
      exact hother rfl rfl rfl
    case isFalse =>
      obtain ⟨formatted, -, rfl⟩ := Option.map_eq_some_iff.mp hperform
      exact hother rfl rfl rfl
  | write data =>
    obtain rfl := Option.some.inj hperform
    have hattempt : (t.tags.startOp .write t.threads.client).attempt = t.tags.attempt := by
      unfold Tags.startOp Tags.launch
      split <;> rfl
    have hwrite : Tagged _ _ (t.threads.client.startOp (.write data))
        (t.tags.startOp (Op.write data).kind t.threads.client) :=
      tagged_startOp (handed_ofAttempt _) (show OpKind.write ≠ .connect by decide) h.tags
    refine ⟨?_, fun b hb => ?_, ?_⟩
    · show Tagged (OpOf (t.tags.startOp .write t.threads.client).attempt)
        (CompletionOf (t.tags.startOp .write t.threads.client).attempt) _ _
      rw [hattempt]
      exact hwrite
    · show HandlerOf (t.tags.startOp .write t.threads.client).attempt b t.handling
      rw [hattempt]
      exact h.running b hb
    · show ∀ p ∈ t.closes ++ [], p.1 = p.2
      rw [List.append_nil]
      exact h.closes

/-- **Whatever is under way is of the present attempt.** A completion, a handler and a call keep the
tags of what they take and pass on; a connect may give out the next tag only when nothing is under
way that has an older one, which is the condition. -/
theorem ownAttempt_step {t t' : TaggedThreads F} {a : Threads.Action} (h : OwnAttempt t)
    (hG : Settled t.threads a) (hs : step fmt t a = some t') : OwnAttempt t' := by
  obtain ⟨threads, hthreads, rfl⟩ := Option.map_eq_some_iff.mp hs
  cases Threads.does_of_step hthreads with
  | @complete i outcome client hcomplete =>
    -- a completion keeps the tag of its operation
    have hattempt : (t.tags.complete i).attempt = t.tags.attempt := by
      unfold Tags.complete
      split <;> rfl
    have htags := tagged_complete (handed_ofAttempt _) h.tags hcomplete
    refine ⟨?_, fun b hb => ?_, ?_⟩
    · show Tagged (OpOf (t.tags.complete i).attempt)
        (CompletionOf (t.tags.complete i).attempt) client (t.tags.complete i)
      rw [hattempt]
      exact htags
    · show HandlerOf (t.tags.complete i).attempt b t.handling
      rw [hattempt]
      exact h.running b hb
    · show ∀ p ∈ t.closes ++ [], p.1 = p.2
      rw [List.append_nil]
      exact h.closes
  | @handle i c r hidle hget hbegin =>
    -- the handler has the tag of its completion for all of its accesses
    obtain ⟨tag, htag, hc⟩ := forall₂_getElem? h.tags.completed hget
    obtain ⟨hrunning, houtstanding, hcompleted⟩ := handlerOf_accesses hc hbegin
    have hhandling : t.handlingAfter (.handle i) = tag := by
      simp only [handlingAfter, htag, Option.getD_some]
    refine ⟨⟨?_, ?_⟩, fun b hb => ?_, ?_⟩
    · show List.Forall₂ (OpOf t.tags.attempt) r.1.outstanding t.tags.outstanding
      rw [houtstanding]
      exact h.tags.outstanding
    · show List.Forall₂ (CompletionOf t.tags.attempt) r.1.completed (t.tags.completed.eraseIdx i)
      rw [hcompleted]
      exact forall₂_eraseIdx h.tags.completed i
    · show HandlerOf t.tags.attempt b (t.handlingAfter (.handle i))
      rw [hhandling]
      exact hrunning b hb
    · show ∀ p ∈ t.closes ++ [], p.1 = p.2
      rw [List.append_nil]
      exact h.closes
  | io hget => exact ownAttempt_io h hget rfl rfl
  | @worker a rest hget =>
    -- only the connect at the end of `reconnect` gives out a tag
    cases a with
    | connect =>
      have htags : t.tagsAfter (.go .worker) = t.tags.startConnect t.threads.client := by
        simp only [tagsAfter, hget, afterTask]
      rw [htags]
      refine ownAttempt_connect h ?_ hG ?_ ?_ _ ?_
      · rw [Threads.startsConnect, hget]
        rfl
      · rfl
      · rfl
      · rfl
    | message | checkTimeout | testConnect =>
      have htags : t.tagsAfter (.go .worker) = t.tags := by simp only [tagsAfter, hget, afterTask]
      rw [htags]
      exact h.same rfl rfl rfl
  | @round a rest hget =>
    cases a with
    | connect =>
      have htags : t.tagsAfter (.go .round) = t.tags.startConnect t.threads.client := by
        simp only [tagsAfter, hget, afterTask]
      rw [htags]
      refine ownAttempt_connect h ?_ hG ?_ ?_ _ ?_
      · rw [Threads.startsConnect, hget]
        rfl
      · rfl
      · rfl
      · rfl
    | message | checkTimeout | testConnect =>
      have htags : t.tagsAfter (.go .round) = t.tags := by simp only [tagsAfter, hget, afterTask]
      rw [htags]
      exact h.same rfl rfl rfl
  | access hget hperform => exact ownAttempt_access h hG hget hperform
  | runTask | late | inTime | timerCheck | call | unknown | tick => exact h.same rfl rfl rfl

/-- **Old failures and new connections.** In every interleaving of the threads of a stream client,
access by access, in which a connect that the socket takes up begins only when no earlier read or
write can fail any more and no handler of one is on its way to `close_socket`: whenever the handler
of a failing read or write closes the socket, that belongs to the connection attempt on which the
read or write was started. -/
theorem closes_own_attempt (fmt : IpacketFormat F) (connectId : Nat) (timerCheckSeconds : Int)
    (pf : F) (as : List Threads.Action) (t : TaggedThreads F)
    (hG : Meets (step fmt) (fun t a => Settled t.threads a)
      (start .tcp connectId timerCheckSeconds pf) as)
    (hrun : run (step fmt) (start .tcp connectId timerCheckSeconds pf) as = some t) :
    ∀ p ∈ t.closes, p.1 = p.2 := by
  have hstart : OwnAttempt (start .tcp connectId timerCheckSeconds pf) := by
    obtain ⟨houtstanding, hcompleted⟩ := start_ops .tcp connectId timerCheckSeconds pf
    refine ⟨⟨?_, ?_⟩, fun a ha => absurd ha List.not_mem_nil,
      fun p hp => absurd hp List.not_mem_nil⟩
    · show List.Forall₂ _ (Client.start .tcp connectId timerCheckSeconds pf).outstanding _
      rw [houtstanding]
      exact .cons ⟨rfl, fun hkind => absurd rfl hkind⟩ .nil
    · show List.Forall₂ _ (Client.start .tcp connectId timerCheckSeconds pf).completed _
      rw [hcompleted]
      exact .nil
  have h : OwnAttempt t :=
    invariant_of_meets OwnAttempt (fun _ _ _ => ownAttempt_step) hstart hG hrun
  exact h.closes

/-- The connection is established, and the handler of its connect runs. -/
def connects : List Threads.Action :=
  [.complete 0 .connected, .handle 0, .go .io, .go .io, .go .io, .go .io]

/-- A failure is handled, up to the posting of the reconnect. -/
def handlesFailure : List Threads.Action :=
  [.handle 0, .go .io, .go .io, .go .io, .go .io, .go .io]

/-- The worker runs the messages of the connect and of the loss, and the reconnect. -/
def reconnects : List Threads.Action :=
  [.runTask, .go .worker, .runTask, .go .worker, .runTask, .go .worker, .go .worker]

/-- The connection is lost twice; both times all is handled before the worker reconnects. -/
def lostTwice : List Threads.Action :=
  connects ++ [.complete 0 .failed] ++ handlesFailure ++ reconnects ++ connects
    ++ [.complete 0 .failed] ++ handlesFailure

theorem closes_own_attempt_lostTwice :
    ∃ t, run (step (cpacketFormat CpacketFormat.noPast)) started lostTwice = some t ∧
      t.closes = [(1, 1), (2, 2)] ∧ ∀ p ∈ t.closes, p.1 = p.2 := by
  refine ⟨_, rfl, rfl, ?_⟩
  exact closes_own_attempt (cpacketFormat CpacketFormat.noPast) 1 30 _ lostTwice _
    (by decide +kernel) rfl

/-- A read and a write are outstanding when the connection is lost. The read's handler closes the
socket, the worker reconnects, and the write's handler closes the socket again. -/
def lateFailure : List Threads.Action :=
  connects ++ [.call (.clientSendData [7] 1), .go .call, .complete 0 .failed] ++ handlesFailure
    ++ reconnects ++ [.handle 0, .go .io, .go .io, .go .io, .go .io]

theorem new_attempt_closed :
    ∃ t, run (step (cpacketFormat CpacketFormat.noPast)) started lateFailure = some t ∧
      t.closes = [(1, 1), (1, 2)] ∧ t.threads.client.socket = .closed ∧
      t.threads.client.completed = [.connectFailed] ∧ ¬ ∀ p ∈ t.closes, p.1 = p.2 := by
  refine ⟨_, rfl, rfl, rfl, rfl, fun hown => ?_⟩
  have hwrite : (1, 2).1 = (1, 2).2 := hown (1, 2) (.tail _ (.head _))
  exact absurd hwrite (by decide)

end TaggedThreads

end PssClient
