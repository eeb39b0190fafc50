import Clacks.Foundation.Sockets
import Mathlib.Logic.Function.Basic
import Mathlib.Logic.Relation
import Mathlib.Order.GameAdd

/-!
# Two programs on one stream connection

A connection joins two programs through two byte queues.  A write appends to the
peer's queue; a read takes at most the requested number of bytes from the own
queue, and waits while the queue is empty and the peer has not closed.  Streams do
not keep message boundaries: what makes a read return exactly one write is that
the two programs take turns.

A script lists the turns: who sends, which messages are possible, and how many
bytes the other end asks for.  A program follows a script on one side when it
writes at its own turns, reads at the others, and closes after the last.

Main results:

- Theorem {lit}`Sync.step`: two programs that follow the same script stay in step
  under every interleaving.
- Theorem {lit}`Sync.history_prefix`: what has happened on the connection is a
  prefix of the script's exchanges, each read returning its own write.
- Theorem {lit}`Sync.progress`: some end can move until both have closed.
- Theorem {lit}`Sync.completes`: the exchange can be run to its end.
-/

namespace Clacks
namespace Foundation
namespace LockStep

open Program

/-- The two ends of a connection. -/
inductive Side where
  | client
  | server
deriving DecidableEq

/-- The end a side talks to. -/
def Side.other : Side → Side
  | client => server
  | server => client

@[simp]
theorem Side.other_other (s : Side) : s.other.other = s := by
  cases s <;> rfl

@[simp]
theorem Side.other_ne (s : Side) : s.other ≠ s := by
  cases s <;> simp [other]

@[simp]
theorem Side.ne_other (s : Side) : s ≠ s.other :=
  fun h => s.other_ne h.symm

theorem Side.eq_or_eq_other (s t : Side) : s = t ∨ s = t.other := by
  cases s <;> cases t <;> simp [other]

/-- One completed operation on the connection. -/
inductive Happening where
  | wrote (side : Side) (bytes : List UInt8)
  | got (side : Side) (bytes : List UInt8)
deriving DecidableEq

/-- A connection with what is left of the program at each end, the bytes waiting
for each end, and its history. -/
structure Link (γ : Type) where
  prog : Side → StreamProgram γ
  inbox : Side → List UInt8
  shut : Side → Bool
  history : List Happening

variable {γ : Type}

/-- A connection on which nothing has happened yet. -/
def Link.fresh (client server : StreamProgram γ) : Link γ where
  prog
    | .client => client
    | .server => server
  inbox _ := []
  shut _ := false
  history := []

/-- One end moves: its write is taken whole, its read returns what is there, its
close is seen by the peer as the end of the stream. -/
inductive Link.Step (l : Link γ) (s : Side) : Link γ → Prop where
  | write {fd : Nat} {bytes : List UInt8}
      {k : Option (Fin (bytes.length + 1)) → StreamProgram γ}
      (hprog : l.prog s = .ask (.write (some fd) bytes) k) (hopen : l.shut s.other = false) :
      Step l s { l with
        prog := Function.update l.prog s (k (some (Fin.last _)))
        inbox := Function.update l.inbox s.other (l.inbox s.other ++ bytes)
        history := l.history ++ [.wrote s bytes] }
  | read {fd n : Nat} {k : Option (Chunk n) → StreamProgram γ}
      (hprog : l.prog s = .ask (.read (some fd) n) k)
      (hready : l.inbox s ≠ [] ∨ l.shut s.other = true) :
      Step l s { l with
        prog := Function.update l.prog s (k (some (Chunk.front n (l.inbox s))))
        inbox := Function.update l.inbox s ((l.inbox s).drop n)
        history := l.history ++ [.got s ((l.inbox s).take n)] }
  | close {fd : Nat} {k : Unit → StreamProgram γ}
      (hprog : l.prog s = .ask (.close (some fd)) k) :
      Step l s { l with
        prog := Function.update l.prog s (k ())
        shut := Function.update l.shut s true }

/-- Any number of moves of either end. -/
abbrev Link.Steps : Link γ → Link γ → Prop :=
  Relation.ReflTransGen fun l l' => ∃ s, l.Step s l'

/-- The connection with its server end taken over by {lit}`p`. -/
def Link.attach (l : Link γ) (p : StreamProgram γ) : Link γ :=
  { l with prog := Function.update l.prog .server p }

theorem Link.fresh_attach (client server p : StreamProgram γ) :
    (Link.fresh client server).attach p = Link.fresh client p := by
  simp only [attach, fresh, Link.mk.injEq, and_true]
  ext s
  cases s with
  | client => rfl
  | server => rfl

/-- What the client does does not depend on who will take over the other end. -/
theorem Link.Step.attach {l l' : Link γ} (hstep : l.Step .client l') (p : StreamProgram γ) :
    (l.attach p).Step .client (l'.attach p) := by
  have hswap : ∀ q : StreamProgram γ, Function.update (Function.update l.prog .client q) .server p =
      Function.update (Function.update l.prog .server p) .client q :=
    fun q => Function.update_comm (by simp) _ _ _
  cases hstep with
  | write hprog hopen =>
      simp only [Link.attach, hswap]
      exact .write (by simpa using hprog) hopen
  | read hprog hready =>
      simp only [Link.attach, hswap]
      exact .read (by simpa using hprog) hready
  | close hprog =>
      simp only [Link.attach, hswap]
      exact .close (by simpa using hprog)

/-- A program with nothing left to do cannot move. -/
theorem Link.Step.not_done {l l' : Link γ} {s : Side} (hstep : l.Step s l') {g : γ} :
    l.prog s ≠ .done g := by
  intro hdone
  cases hstep with
  | write hprog => simp [hprog] at hdone
  | read hprog => simp [hprog] at hdone
  | close hprog => simp [hprog] at hdone

/-! ## Scripts -/

/-- One message of a script, and the size its receiver asks for. -/
structure Turn where
  sender : Side
  allowed : List UInt8 → Prop
  limit : Nat

/-- What is left of a program follows what is left of a script. -/
inductive Follows (s : Side) (fin : γ → Prop) : List Turn → StreamProgram γ → Prop where
  | close {fd : Nat} {k : Unit → StreamProgram γ} {g : γ} (hdone : k () = .done g)
      (hfin : fin g) : Follows s fin [] (.ask (.close (some fd)) k)
  | send {t : Turn} {rest : List Turn} {fd : Nat} {bytes : List UInt8}
      {k : Option (Fin (bytes.length + 1)) → StreamProgram γ} (hsender : t.sender = s)
      (hbytes : t.allowed bytes) (hrest : Follows s fin rest (k (some (Fin.last _)))) :
      Follows s fin (t :: rest) (.ask (.write (some fd) bytes) k)
  | receive {t : Turn} {rest : List Turn} {fd : Nat}
      {k : Option (Chunk t.limit) → StreamProgram γ} (hsender : t.sender = s.other)
      (hrest : ∀ bytes, t.allowed bytes →
        Follows s fin rest (k (some (Chunk.front t.limit bytes)))) :
      Follows s fin (t :: rest) (.ask (.read (some fd) t.limit) k)

/-- Turns alternate, and every message but the last is non-empty and fits the size
its receiver asks for. -/
def Framed : List Turn → Prop
  | t :: t' :: rest =>
      t'.sender = t.sender.other ∧
        (∀ bytes, t.allowed bytes → bytes ≠ [] ∧ bytes.length ≤ t.limit) ∧
          Framed (t' :: rest)
  | _ => True

theorem Framed.suffix {before after : List Turn} (h : Framed (before ++ after)) :
    Framed after := by
  induction before with
  | nil => exact h
  | cons t before ih =>
      apply ih
      rw [List.cons_append] at h
      cases hrest : before ++ after with
      | nil => trivial
      | cons t' rest =>
          rw [hrest] at h
          exact h.2.2

/-! ## Staying in step -/

/-- An end that still has {lit}`rest` of the script ahead of it; only an end with
nothing ahead may have closed. -/
inductive Standing (s : Side) (fin : γ → Prop) : List Turn → StreamProgram γ → Bool → Prop where
  | running {rest : List Turn} {p : StreamProgram γ} (hfollows : Follows s fin rest p) :
      Standing s fin rest p false
  | closed {g : γ} (hfin : fin g) : Standing s fin [] (.done g) true

theorem Standing.follows {s : Side} {fin : γ → Prop} {t : Turn} {rest : List Turn}
    {p : StreamProgram γ} {shut : Bool} (h : Standing s fin (t :: rest) p shut) :
    Follows s fin (t :: rest) p ∧ shut = false := by
  cases h with
  | running hfollows => exact ⟨hfollows, rfl⟩

/-- An end that is about to perform an operation has not closed. -/
theorem Standing.ask {s : Side} {fin : γ → Prop} {rest : List Turn} {op : StreamOp}
    {k : op.Ans → StreamProgram γ} {shut : Bool} (h : Standing s fin rest (.ask op k) shut) :
    Follows s fin rest (.ask op k) ∧ shut = false := by
  cases h with
  | running hfollows => exact ⟨hfollows, rfl⟩

/-- The operations of completed turns: each write followed by its read. -/
def exchanges (past : List (Turn × List UInt8)) : List Happening :=
  past.flatMap fun x => [.wrote x.1.sender x.2, .got x.1.sender.other (x.2.take x.1.limit)]

theorem exchanges_append (past later : List (Turn × List UInt8)) :
    exchanges (past ++ later) = exchanges past ++ exchanges later :=
  List.flatMap_append

/-- The two ends are in step: either no message is under way, or the message of one
turn has been written and not yet read. -/
inductive Sync (fin : Side → γ → Prop) (script : List Turn) (l : Link γ) : Prop where
  | between (past : List (Turn × List UInt8)) (rest : List Turn)
      (hscript : script = past.map Prod.fst ++ rest)
      (hpast : ∀ x ∈ past, x.1.allowed x.2)
      (hhistory : l.history = exchanges past)
      (hinbox : rest ≠ [] → ∀ s, l.inbox s = [])
      (hends : ∀ s, Standing s (fin s) rest (l.prog s) (l.shut s))
  | during (past : List (Turn × List UInt8)) (t : Turn) (bytes : List UInt8) (rest : List Turn)
      (hscript : script = past.map Prod.fst ++ t :: rest)
      (hpast : ∀ x ∈ past, x.1.allowed x.2)
      (hbytes : t.allowed bytes)
      (hhistory : l.history = exchanges past ++ [.wrote t.sender bytes])
      (hinbox : l.inbox t.sender.other = bytes)
      (hquiet : l.inbox t.sender = [])
      (hsender : Standing t.sender (fin t.sender) rest (l.prog t.sender) (l.shut t.sender))
      (hreceiver : Follows t.sender.other (fin t.sender.other) (t :: rest)
        (l.prog t.sender.other))
      (hopen : l.shut t.sender.other = false)

variable {fin : Side → γ → Prop} {script : List Turn} {l l' : Link γ} {s : Side}

/-- A fresh connection between two programs that follow the script is in step. -/
theorem Sync.init {client server : StreamProgram γ}
    (hclient : Follows .client (fin .client) script client)
    (hserver : Follows .server (fin .server) script server) :
    Sync fin script (Link.fresh client server) := by
  refine .between [] script rfl (by simp) rfl (fun _ _ => rfl) ?_
  intro s
  cases s with
  | client => exact .running hclient
  | server => exact .running hserver

/-- A write can only happen between two messages, and puts one under way. -/
theorem Sync.step_write (hframed : Framed script) (h : Sync fin script l) {fd : Nat}
    {bytes : List UInt8} {k : Option (Fin (bytes.length + 1)) → StreamProgram γ}
    (hprog : l.prog s = .ask (.write (some fd) bytes) k) :
    Sync fin script { l with
      prog := Function.update l.prog s (k (some (Fin.last _)))
      inbox := Function.update l.inbox s.other (l.inbox s.other ++ bytes)
      history := l.history ++ [.wrote s bytes] } := by
  cases h with
  | between past rest hscript hpast hhistory hinbox hends =>
      have hown := hends s
      rw [hprog] at hown
      cases rest with
      | nil => cases hown.ask.1
      | cons t rest =>
          rcases hown.follows with ⟨hfollows, hshut⟩
          rcases (hends s.other).follows with ⟨hreceiver, hopen⟩
          cases hfollows with
          | send hsender hbytes hrest =>
              subst hsender
              have hempty := hinbox (by simp)
              refine .during past t bytes rest hscript hpast hbytes ?_ ?_ ?_ ?_ ?_ hopen
              · rw [hhistory]
              · simp [hempty]
              · simp [hempty]
              · simp only [Function.update_self, hshut]
                exact .running hrest
              · simpa using hreceiver
  | during past t bytes' rest hscript hpast hbytes' hhistory hinbox hquiet hsender hreceiver
      hopen =>
      rcases Side.eq_or_eq_other s t.sender with rfl | rfl
      · -- The sender of the message under way is not the sender of the next one.
        rw [hprog] at hsender
        cases hsender.ask.1 with
        | send hnext =>
            rw [hscript] at hframed
            have halternate := hframed.suffix.1
            simp [hnext] at halternate
      · rw [hprog] at hreceiver
        cases hreceiver with
        | send hnext => simp at hnext

/-- A read can only return the one message under way. -/
theorem Sync.step_read (hframed : Framed script) (h : Sync fin script l) {fd n : Nat}
    {k : Option (Chunk n) → StreamProgram γ} (hprog : l.prog s = .ask (.read (some fd) n) k)
    (hready : l.inbox s ≠ [] ∨ l.shut s.other = true) :
    Sync fin script { l with
      prog := Function.update l.prog s (k (some (Chunk.front n (l.inbox s))))
      inbox := Function.update l.inbox s ((l.inbox s).drop n)
      history := l.history ++ [.got s ((l.inbox s).take n)] } := by
  cases h with
  | between past rest hscript hpast hhistory hinbox hends =>
      have hown := hends s
      rw [hprog] at hown
      cases rest with
      | nil => cases hown.ask.1
      | cons t rest =>
          have hempty := hinbox (by simp) s
          have hpeer := (hends s.other).follows.2
          simp [hempty, hpeer] at hready
  | during past t bytes rest hscript hpast hbytes hhistory hinbox hquiet hsender hreceiver
      hopen =>
      rcases Side.eq_or_eq_other s t.sender with rfl | rfl
      · simp [hquiet, hopen] at hready
      · rw [hprog] at hreceiver
        cases hreceiver with
        | receive _ hrest =>
            refine .between (past ++ [(t, bytes)]) rest (by simp [hscript]) ?_ ?_ ?_ ?_
            · intro x hx
              rcases List.mem_append.1 hx with hx | hx
              · exact hpast x hx
              · rw [List.mem_singleton.1 hx]
                exact hbytes
            · rw [exchanges_append, hhistory, hinbox]
              simp [exchanges]
            · intro hrest' r
              rcases Side.eq_or_eq_other r t.sender with rfl | rfl
              · simpa using hquiet
              · -- Only the last message of a script may exceed the size asked for.
                have hfit : bytes.length ≤ t.limit := by
                  cases rest with
                  | nil => exact absurd rfl hrest'
                  | cons t' rest =>
                      rw [hscript] at hframed
                      exact (hframed.suffix.2.1 bytes hbytes).2
                simp [hinbox, hfit]
            · intro r
              rcases Side.eq_or_eq_other r t.sender with rfl | rfl
              · simpa using hsender
              · simp only [Function.update_self, hopen, hinbox]
                exact .running (hrest bytes hbytes)

/-- A close happens at the end of the script only. -/
theorem Sync.step_close (h : Sync fin script l) {fd : Nat} {k : Unit → StreamProgram γ}
    (hprog : l.prog s = .ask (.close (some fd)) k) :
    Sync fin script { l with
      prog := Function.update l.prog s (k ())
      shut := Function.update l.shut s true } := by
  cases h with
  | between past rest hscript hpast hhistory hinbox hends =>
      have hown := hends s
      rw [hprog] at hown
      cases hown.ask.1 with
      | close hdone hfin =>
          refine .between past [] hscript hpast hhistory (by simp) ?_
          intro r
          rcases Side.eq_or_eq_other r s with rfl | rfl
          · simp only [Function.update_self, hdone]
            exact .closed hfin
          · simpa using hends s.other
  | during past t bytes rest hscript hpast hbytes hhistory hinbox hquiet hsender hreceiver
      hopen =>
      rcases Side.eq_or_eq_other s t.sender with rfl | rfl
      · rw [hprog] at hsender
        cases hsender.ask.1 with
        | close hdone hfin =>
            refine .during past t bytes [] hscript hpast hbytes hhistory hinbox hquiet ?_ ?_ ?_
            · simp only [Function.update_self, hdone]
              exact .closed hfin
            · simpa using hreceiver
            · simpa using hopen
      · rw [hprog] at hreceiver
        cases hreceiver

/-- Every move of either end keeps the two ends in step. -/
theorem Sync.step (hframed : Framed script) (h : Sync fin script l) (hstep : l.Step s l') :
    Sync fin script l' := by
  cases hstep with
  | write hprog _ => exact h.step_write hframed hprog
  | read hprog hready => exact h.step_read hframed hprog hready
  | close hprog => exact h.step_close hprog

/-- The two ends stay in step over every interleaving. -/
theorem Sync.steps (hframed : Framed script) (h : Sync fin script l) (hsteps : l.Steps l') :
    Sync fin script l' := by
  induction hsteps with
  | refl => exact h
  | tail _ hlast ih =>
      rcases hlast with ⟨s, hlast⟩
      exact ih.step hframed hlast

/-! ## What staying in step gives -/

/-- The history is a prefix of the exchanges of a full run of the script. -/
theorem Sync.history_prefix (h : Sync fin script l)
    (hpossible : ∀ t ∈ script, ∃ bytes, t.allowed bytes) :
    ∃ full : List (Turn × List UInt8), full.map Prod.fst = script ∧
      (∀ x ∈ full, x.1.allowed x.2) ∧ l.history <+: exchanges full := by
  -- Turns that were not reached yet are filled with any allowed message.
  have hfill : ∀ rest : List Turn, (∀ t ∈ rest, t ∈ script) →
      ∃ later : List (Turn × List UInt8), later.map Prod.fst = rest ∧
        ∀ x ∈ later, x.1.allowed x.2 := by
    intro rest hrest
    induction rest with
    | nil => exact ⟨[], rfl, by simp⟩
    | cons t rest ih =>
        rcases ih fun t' ht' => hrest t' (List.mem_cons_of_mem t ht') with ⟨later, hmap, hall⟩
        rcases hpossible t (hrest t List.mem_cons_self) with ⟨bytes, hbytes⟩
        refine ⟨(t, bytes) :: later, by simp [hmap], ?_⟩
        intro x hx
        rcases List.mem_cons.1 hx with rfl | hx
        · exact hbytes
        · exact hall x hx
  cases h with
  | between past rest hscript hpast hhistory _ _ =>
      rcases hfill rest (by simp +contextual [hscript]) with ⟨later, hmap, hall⟩
      refine ⟨past ++ later, by simp [hmap, hscript], ?_, ?_⟩
      · intro x hx
        rcases List.mem_append.1 hx with hx | hx
        · exact hpast x hx
        · exact hall x hx
      · rw [hhistory, exchanges_append]
        exact List.prefix_append _ _
  | during past t bytes rest hscript hpast hbytes hhistory _ _ _ _ _ =>
      rcases hfill rest (by simp +contextual [hscript]) with ⟨later, hmap, hall⟩
      refine ⟨past ++ (t, bytes) :: later, by simp [hmap, hscript], ?_, ?_⟩
      · intro x hx
        rcases List.mem_append.1 hx with hx | hx
        · exact hpast x hx
        · rcases List.mem_cons.1 hx with rfl | hx
          · exact hbytes
          · exact hall x hx
      · refine ⟨.got t.sender.other (bytes.take t.limit) :: exchanges later, ?_⟩
        rw [hhistory, exchanges_append]
        simp [exchanges]

/-- Number of writes of a history that no read has returned. -/
def unread (history : List Happening) : Nat :=
  (history.countP fun | .wrote _ _ => true | _ => false) -
    (history.countP fun | .got _ _ => true | _ => false)

private theorem countP_exchanges (past : List (Turn × List UInt8)) :
    (exchanges past).countP (fun | .wrote _ _ => true | _ => false) =
      (exchanges past).countP (fun | .got _ _ => true | _ => false) := by
  induction past with
  | nil => rfl
  | cons x past ih =>
      rw [← List.singleton_append, exchanges_append, List.countP_append, List.countP_append, ih]
      rfl

/-- At most one write is unread on the whole connection. -/
theorem Sync.unread_le_one (h : Sync fin script l) : unread l.history ≤ 1 := by
  cases h with
  | between past rest _ _ hhistory _ _ =>
      rw [hhistory, unread, countP_exchanges]
      simp
  | during past t bytes rest _ _ _ hhistory _ _ _ _ _ =>
      rw [hhistory, unread, List.countP_append, List.countP_append, countP_exchanges]
      simp

/-- A read returned the front of a message that was allowed to its sender. -/
theorem Sync.got_allowed (h : Sync fin script l) {bytes : List UInt8}
    (hgot : .got s bytes ∈ l.history) : ∃ t ∈ script, t.sender = s.other ∧
      ∃ sent, t.allowed sent ∧ bytes = sent.take t.limit := by
  have hpast : ∀ past : List (Turn × List UInt8), (∀ x ∈ past, x.1.allowed x.2) →
      .got s bytes ∈ exchanges past → ∃ t ∈ past.map Prod.fst, t.sender = s.other ∧
        ∃ sent, t.allowed sent ∧ bytes = sent.take t.limit := by
    intro past hall hmem
    rcases List.mem_flatMap.1 hmem with ⟨x, hx, hmem⟩
    simp only [List.mem_cons, Happening.got.injEq, List.not_mem_nil, or_false, reduceCtorEq,
      false_or] at hmem
    rcases hmem with ⟨rfl, rfl⟩
    exact ⟨x.1, List.mem_map_of_mem hx, by simp, x.2, hall x hx, rfl⟩
  cases h with
  | between past rest hscript hall hhistory _ _ =>
      rw [hhistory] at hgot
      rcases hpast past hall hgot with ⟨t, ht, hsaid⟩
      exact ⟨t, hscript ▸ List.mem_append_left _ ht, hsaid⟩
  | during past t bytes' rest hscript hall _ hhistory _ _ _ _ _ =>
      rw [hhistory] at hgot
      have hearlier : .got s bytes ∈ exchanges past := by simpa using hgot
      rcases hpast past hall hearlier with ⟨t', ht', hsaid⟩
      exact ⟨t', hscript ▸ List.mem_append_left _ ht', hsaid⟩

/-- An end that has returned has returned what the script ends with. -/
theorem Sync.fin_of_done (h : Sync fin script l) {g : γ} (hdone : l.prog s = .done g) : fin s g := by
  have hstanding : ∀ rest, Standing s (fin s) rest (l.prog s) (l.shut s) → fin s g := by
    intro rest hstanding
    rw [hdone] at hstanding
    generalize l.shut s = shut at hstanding
    cases hstanding with
    | running hfollows => cases hfollows
    | closed hfin => exact hfin
  cases h with
  | between past rest _ _ _ _ hends => exact hstanding rest (hends s)
  | during past t bytes rest _ _ _ _ _ _ hsender hreceiver _ =>
      rcases Side.eq_or_eq_other s t.sender with rfl | rfl
      · exact hstanding rest hsender
      · rw [hdone] at hreceiver
        cases hreceiver

/-- When both programs have returned, the history is the exchanges of a full run. -/
theorem Sync.history_of_done (h : Sync fin script l) (hdone : ∀ s, ∃ g, l.prog s = .done g) :
    ∃ full : List (Turn × List UInt8), full.map Prod.fst = script ∧
      (∀ x ∈ full, x.1.allowed x.2) ∧ l.history = exchanges full := by
  cases h with
  | between past rest hscript hpast hhistory _ hends =>
      cases rest with
      | nil => exact ⟨past, by simp [hscript], hpast, hhistory⟩
      | cons t rest =>
          rcases hdone .client with ⟨g, hg⟩
          have hfollows := (hends .client).follows.1
          rw [hg] at hfollows
          cases hfollows
  | during past t bytes rest _ _ _ _ _ _ _ hreceiver _ =>
      rcases hdone t.sender.other with ⟨g, hg⟩
      rw [hg] at hreceiver
      cases hreceiver

/-- Both ends have closed. -/
def Link.Finished (fin : Side → γ → Prop) (l : Link γ) : Prop :=
  ∀ s, l.shut s = true ∧ ∃ g, l.prog s = .done g ∧ fin s g

theorem Standing.progress {s : Side} {fin : γ → Prop} (h : Standing s fin [] (l.prog s) (l.shut s)) :
    (∃ l', l.Step s l') ∨ l.shut s = true ∧ ∃ g, l.prog s = .done g ∧ fin g := by
  generalize hp : l.prog s = p at h
  generalize hb : l.shut s = b at h
  cases h with
  | running hfollows =>
      cases hfollows with
      | close hdone hfin => exact .inl ⟨_, .close hp⟩
  | closed hfin => exact .inr ⟨rfl, _, rfl, hfin⟩

/-- Until both ends have closed, some end can move. -/
theorem Sync.progress (hframed : Framed script) (h : Sync fin script l) :
    (∃ s l', l.Step s l') ∨ l.Finished fin := by
  cases h with
  | between past rest hscript hpast hhistory hinbox hends =>
      cases rest with
      | nil =>
          by_cases hmove : ∃ s l', l.Step s l'
          · exact .inl hmove
          · refine .inr fun s => ?_
            rcases (hends s).progress with hstep | hdone
            · exact absurd ⟨s, hstep⟩ hmove
            · exact hdone
      | cons t rest =>
          have hpeer := (hends t.sender.other).follows.2
          have hown := (hends t.sender).follows.1
          generalize hp : l.prog t.sender = p at hown
          cases hown with
          | send => exact .inl ⟨t.sender, _, .write hp hpeer⟩
          | receive hsender => simp at hsender
  | during past t bytes rest hscript hpast hbytes hhistory hinbox hquiet hsender hreceiver
      hopen =>
      generalize hp : l.prog t.sender.other = p at hreceiver
      cases hreceiver with
      | send hnext => simp at hnext
      | receive =>
          by_cases hready : l.inbox t.sender.other ≠ [] ∨ l.shut t.sender.other.other = true
          · exact .inl ⟨t.sender.other, _, .read hp hready⟩
          · -- An empty message is the last one, so its sender is about to close.
            rw [not_or, not_not, hinbox] at hready
            cases rest with
            | nil =>
                rcases hsender.progress with ⟨l', hstep⟩ | ⟨hshut, _⟩
                · exact .inl ⟨t.sender, l', hstep⟩
                · simp [hshut] at hready
            | cons t' rest =>
                rw [hscript] at hframed
                exact absurd hready.1 (hframed.suffix.2.1 bytes hbytes).1

/-- When both programs have returned, both ends have closed and the script is done. -/
theorem Sync.finished (hframed : Framed script) (h : Sync fin script l)
    (hdone : ∀ s, ∃ g, l.prog s = .done g) : l.Finished fin := by
  rcases h.progress hframed with ⟨s, l', hstep⟩ | hfinished
  · rcases hdone s with ⟨g, hg⟩
    exact absurd hg hstep.not_done
  · exact hfinished

/-- A move answers the operation its end is about to perform. -/
theorem Link.Step.prog_eq (hstep : l.Step s l') :
    ∃ (op : StreamOp) (k : op.Ans → StreamProgram γ) (answer : op.Ans),
      l.prog s = .ask op k ∧ l'.prog s = k answer ∧ l'.prog s.other = l.prog s.other := by
  cases hstep with
  | write hprog => exact ⟨_, _, some (Fin.last _), hprog, by simp, by simp⟩
  | read hprog => exact ⟨_, _, some (Chunk.front _ (l.inbox s)), hprog, by simp, by simp⟩
  | close hprog => exact ⟨_, _, (), hprog, by simp, by simp⟩

/-- A move takes one of the two programs forward and leaves the other. -/
theorem Link.Step.continues (hstep : l.Step s l') :
    Prod.GameAdd Continues Continues (l'.prog .client, l'.prog .server)
      (l.prog .client, l.prog .server) := by
  rcases hstep.prog_eq with ⟨op, k, answer, hop, hk, hother⟩
  have hforward : Continues (l'.prog s) (l.prog s) := by
    rw [hop, hk]
    exact .intro op k answer
  cases s with
  | client =>
      change l'.prog .server = l.prog .server at hother
      rw [hother]
      exact .fst hforward
  | server =>
      change l'.prog .client = l.prog .client at hother
      rw [hother]
      exact .snd hforward

/-- The exchange can be run to its end: a move always takes a program forward. -/
theorem Sync.completes (hframed : Framed script) (h : Sync fin script l) :
    ∃ l', l.Steps l' ∧ l'.Finished fin := by
  -- Induction on what is left of the two programs.
  generalize hleft : (l.prog .client, l.prog .server) = left
  induction left using (continues_wf.prod_gameAdd continues_wf).induction generalizing l with
  | _ left ih =>
      subst hleft
      rcases h.progress hframed with ⟨s, l', hstep⟩ | hdone
      · rcases ih _ hstep.continues (h.step hframed hstep) rfl with ⟨l'', hsteps, hdone⟩
        exact ⟨l'', .head ⟨s, hstep⟩ hsteps, hdone⟩
      · exact ⟨l, .refl, hdone⟩

end LockStep
end Foundation
end Clacks
