import Mathlib.Data.Prod.Lex
import SystemProgramming.Lib.Fifo
import SystemProgramming.Lib.Machine
import SystemProgramming.Lib.Service

set_option autoImplicit false

/-! # Dialogues over one pipe

Two processes take turns on one named pipe. The asker opens it, writes a message and closes it, then
opens it the other way round and reads the answer up to its end; the answerer opens it, reads a
message and closes it, then opens it and writes the answer in pieces. The last message is not
answered.

The two may be at any point when the other moves. That nobody reads what it has written itself,
that no answer is cut off or runs into the next one, and that the two never wait for each other, is
`Phase`: what the two ends of the pipe can be at each moment. Its rank falls with every step. -/

namespace SystemProgramming

open Function

namespace Dialogue

/-- The two ends of a dialogue. -/
inductive Party
  | asker
  | answerer
deriving DecidableEq

instance : Fintype Party where
  elems := {.asker, .answerer}
  complete p := by cases p <;> simp

/-- Where the asker is. -/
inductive AskerPC
  /-- before `open` for writing, in it, or about to write -/
  | opening
  /-- about to close -/
  | written
  /-- before `open` for reading, in it, or in the loop of `read` calls -/
  | listening
  /-- at the end of the answer, about to close -/
  | heard
  | ended
deriving DecidableEq

/-- Where the answerer is. -/
inductive AnswererPC (β : Type*)
  /-- before `open` for reading, in it, or about to read -/
  | opening
  /-- about to close -/
  | read (message : List β)
  | reacting (message : List β)
  /-- before `open` for writing, in it, or with these pieces to write -/
  | answering (pieces : List (List β))
  | ended

/-- The pipe between the two, where each is, and what has been said. -/
structure Talk (σ β : Type*) where
  pipe : Fifo Party Party β
  asker : AskerPC
  /-- the message that is sent or answered, and those behind it -/
  messages : List (List β)
  /-- what has been read of the answer -/
  heard : List (List β)
  /-- the answers before, read by read -/
  answers : List (List (List β))
  answerer : AnswererPC β
  state : σ

/-- What the answerer makes of a message: an answer in pieces, or it leaves. The sizes are those of
    the `read` calls of the two. -/
structure Answerer (σ κ β : Type*) where
  react : σ → κ → List β → Option (σ × Option (List (List β)))
  messageSize : ℕ
  answerSize : ℕ

variable {σ τ κ ι β : Type*}

/-- A step of the asker: a message is sent, and its answer is heard to the end. -/
def askerTurn (size : ℕ) (x : Talk σ β) : Option (Talk σ β) :=
  match x.asker, x.messages with
  | .opening, m :: _ =>
      match x.pipe.writers .asker with
      | .closed => some { x with pipe := x.pipe.openWrite .asker }
      | .opening => none
      | .opened => (x.pipe.write m).map fun pipe => { x with pipe := pipe, asker := .written }
  | .written, _ :: rest =>
      some { x with
        pipe := x.pipe.closeWrite .asker
        asker := if rest.isEmpty then .ended else .listening }
  | .listening, _ :: _ =>
      match x.pipe.readers .asker with
      | .closed => some { x with pipe := x.pipe.openRead .asker }
      | .opening => none
      | .opened =>
          (x.pipe.read size).map fun r =>
            if r.1.isEmpty then { x with pipe := r.2, asker := .heard }
            else { x with pipe := r.2, heard := x.heard ++ [r.1] }
  | .heard, _ :: rest =>
      some { x with
        pipe := x.pipe.closeRead .asker
        asker := .opening
        messages := rest
        heard := []
        answers := x.answers ++ [x.heard] }
  | _, _ => none

/-- A step of the answerer: a message is read, and answered piece by piece. -/
def answererTurn (d : Answerer σ κ β) (choice : κ) (x : Talk σ β) : Option (Talk σ β) :=
  match x.answerer with
  | .opening =>
      match x.pipe.readers .answerer with
      | .closed => some { x with pipe := x.pipe.openRead .answerer }
      | .opening => none
      | .opened =>
          (x.pipe.read d.messageSize).map fun r => { x with pipe := r.2, answerer := .read r.1 }
  | .read m => some { x with pipe := x.pipe.closeRead .answerer, answerer := .reacting m }
  | .reacting m =>
      (d.react x.state choice m).map fun r =>
        match r with
        | (s, some pieces) => { x with state := s, answerer := .answering pieces }
        | (s, none) => { x with state := s, answerer := .ended }
  | .answering pieces =>
      match x.pipe.writers .answerer with
      | .closed => some { x with pipe := x.pipe.openWrite .answerer }
      | .opening => none
      | .opened =>
          match pieces with
          | [] => some { x with pipe := x.pipe.closeWrite .answerer, answerer := .opening }
          | p :: pieces =>
              (x.pipe.write p).map fun pipe => { x with pipe := pipe, answerer := .answering pieces }
  | .ended => none

/-- Who takes the next step, and with which choice. -/
inductive Move (κ : Type*)
  | asker
  | answerer (choice : κ)

/-- Both are in front of their first `open`. -/
def start (messages : List (List β)) (s : σ) : Talk σ β :=
  ⟨Fifo.empty, .opening, messages, [], [], .opening, s⟩

/-- The asker with these messages and the answerer, in any interleaving. -/
def machine (d : Answerer σ κ β) (messages : List (List β)) (s : σ) :
    Machine (Talk σ β) (Move κ) where
  init x := x = start messages s
  next x
    | .asker => askerTurn d.answerSize x
    | .answerer choice => answererTurn d choice x

/-! ## The pipe between the two -/

/-- The ends of the asker and of the answerer. -/
def ends (a b : FifoEnd) : Party → FifoEnd
  | .asker => a
  | .answerer => b

theorem update_asker (a b e : FifoEnd) : update (ends a b) .asker e = ends e b := by
  funext p
  cases p <;> rfl

theorem update_answerer (a b e : FifoEnd) : update (ends a b) .answerer e = ends a e := by
  funext p
  cases p <;> rfl

theorem release_ends (a b : FifoEnd) :
    (fun p => (ends a b p).release) = ends a.release b.release := by
  funext p
  cases p <;> rfl

theorem exists_ends {a b : FifoEnd} :
    (∃ p, ends a b p ≠ .closed) ↔ a ≠ .closed ∨ b ≠ .closed := by
  constructor
  · rintro ⟨p, hp⟩
    cases p with
    | asker => exact .inl hp
    | answerer => exact .inr hp
  · rintro (ha | hb)
    · exact ⟨.asker, ha⟩
    · exact ⟨.answerer, hb⟩

/-- The pipe with this data, the read ends and the write ends of the two. -/
def line (data : List β) (r r' w w' : FifoEnd) : Fifo Party Party β :=
  ⟨data, ends r r', ends w w', []⟩

theorem empty_eq_line : (Fifo.empty : Fifo Party Party β) = line [] .closed .closed .closed .closed := by
  have hends : (fun _ => FifoEnd.closed) = ends .closed .closed := by
    funext p
    cases p <;> rfl
  rw [Fifo.empty, hends, line]

section Line

variable {data : List β} {r r' w w' : FifoEnd}

@[simp] theorem readers_asker : (line data r r' w w').readers .asker = r := rfl

@[simp] theorem readers_answerer : (line data r r' w w').readers .answerer = r' := rfl

@[simp] theorem writers_asker : (line data r r' w w').writers .asker = w := rfl

@[simp] theorem writers_answerer : (line data r r' w w').writers .answerer = w' := rfl

theorem hasReader_line : (line data r r' w w').HasReader ↔ r ≠ .closed ∨ r' ≠ .closed :=
  exists_ends

theorem hasWriter_line : (line data r r' w w').HasWriter ↔ w ≠ .closed ∨ w' ≠ .closed :=
  exists_ends

/-- An `open` for writing waits for a reader. -/
theorem askerWrites_alone : (line data .closed .closed w w').openWrite .asker
    = line data .closed .closed .opening w' := by
  rw [Fifo.openWrite, if_neg (by simp [hasReader_line])]
  simp only [line, update_asker]

theorem askerWrites_meets : (line data .closed .opening w w').openWrite .asker
    = line data .closed .opened .opened w' := by
  rw [Fifo.openWrite, if_pos (by simp [hasReader_line])]
  simp only [line, update_asker, release_ends]
  rfl

theorem answererWrites_alone : (line data .closed .closed w w').openWrite .answerer
    = line data .closed .closed w .opening := by
  rw [Fifo.openWrite, if_neg (by simp [hasReader_line])]
  simp only [line, update_answerer]

theorem answererWrites_meets : (line data .opening .closed w w').openWrite .answerer
    = line data .opened .closed w .opened := by
  rw [Fifo.openWrite, if_pos (by simp [hasReader_line])]
  simp only [line, update_answerer, release_ends]
  rfl

/-- An `open` for reading waits for a writer. -/
theorem askerReads_alone : (line data r r' .closed .closed).openRead .asker
    = line data .opening r' .closed .closed := by
  rw [Fifo.openRead, if_neg (by simp [hasWriter_line])]
  simp only [line, update_asker]

theorem askerReads_meets : (line data r r' .closed .opening).openRead .asker
    = line data .opened r' .closed .opened := by
  rw [Fifo.openRead, if_pos (by simp [hasWriter_line])]
  simp only [line, update_asker, release_ends]
  rfl

theorem answererReads_alone : (line data r r' .closed .closed).openRead .answerer
    = line data r .opening .closed .closed := by
  rw [Fifo.openRead, if_neg (by simp [hasWriter_line])]
  simp only [line, update_answerer]

theorem answererReads_meets : (line data r r' .opening .closed).openRead .answerer
    = line data r .opened .opened .closed := by
  rw [Fifo.openRead, if_pos (by simp [hasWriter_line])]
  simp only [line, update_answerer, release_ends]
  rfl

theorem write_line (h : r ≠ .closed ∨ r' ≠ .closed) (bytes : List β) :
    (line data r r' w w').write bytes = some (line (data ++ bytes) r r' w w') :=
  if_pos (hasReader_line.2 h)

theorem read_line (hdata : data ≠ []) (n : ℕ) :
    (line data r r' w w').read n = some (data.take n, line (data.drop n) r r' w w') :=
  if_neg hdata

theorem read_line_end (n : ℕ) : (line ([] : List β) r r' .closed .closed).read n
    = some ([], line [] r r' .closed .closed) :=
  (if_pos rfl).trans (if_neg (by simp [hasWriter_line]))

theorem read_line_blocked (h : w ≠ .closed ∨ w' ≠ .closed) (n : ℕ) :
    (line ([] : List β) r r' w w').read n = none :=
  (if_pos rfl).trans (if_pos (hasWriter_line.2 h))

/-- Data is kept as long as somebody has the pipe open. -/
theorem discard_line
    (h : data = [] ∨ (r ≠ .closed ∨ r' ≠ .closed) ∨ w ≠ .closed ∨ w' ≠ .closed) :
    (line data r r' w w').discard = line data r r' w w' :=
  Fifo.discard_eq_self (h.imp id fun h => h.imp hasReader_line.2 hasWriter_line.2)

theorem askerClosesWrite (h : data = [] ∨ (r ≠ .closed ∨ r' ≠ .closed) ∨ w' ≠ .closed) :
    (line data r r' w w').closeWrite .asker = line data r r' .closed w' := by
  have hsame : (line data r r' w w').closeWrite .asker = (line data r r' .closed w').discard := by
    simp only [Fifo.closeWrite, line, update_asker]
  rw [hsame, discard_line (h.imp id fun h => h.imp id .inr)]

theorem answererClosesWrite (h : data = [] ∨ (r ≠ .closed ∨ r' ≠ .closed) ∨ w ≠ .closed) :
    (line data r r' w w').closeWrite .answerer = line data r r' w .closed := by
  have hsame : (line data r r' w w').closeWrite .answerer = (line data r r' w .closed).discard := by
    simp only [Fifo.closeWrite, line, update_answerer]
  rw [hsame, discard_line (h.imp id fun h => h.imp id .inl)]

theorem askerClosesRead :
    (line ([] : List β) r r' w w').closeRead .asker = line [] .closed r' w w' := by
  have hsame : (line ([] : List β) r r' w w').closeRead .asker
      = (line [] .closed r' w w').discard := by
    simp only [Fifo.closeRead, line, update_asker]
  rw [hsame, discard_line (.inl rfl)]

theorem answererClosesRead :
    (line ([] : List β) r r' w w').closeRead .answerer = line [] r .closed w w' := by
  have hsame : (line ([] : List β) r r' w w').closeRead .answerer
      = (line [] r .closed w w').discard := by
    simp only [Fifo.closeRead, line, update_answerer]
  rw [hsame, discard_line (.inl rfl)]

end Line

/-! ## The phases -/

/-- How far an end is from being open. -/
def toOpen : FifoEnd → ℕ
  | .closed => 2
  | .opening => 1
  | .opened => 0

/-- The ends of a writer and of a reader that come to meet. -/
inductive Meeting : FifoEnd → FifoEnd → Prop
  | apart : Meeting .closed .closed
  | writer : Meeting .opening .closed
  | reader : Meeting .closed .opening
  | met : Meeting .opened .opened

/-- The asker from its message to the answer, or to its end: its ends of the pipe, and its rank. -/
inductive Asked : Bool → AskerPC → FifoEnd → FifoEnd → ℕ → Prop
  | written (last : Bool) : Asked last .written .opened .closed 3
  | listening {r : FifoEnd} (hr : r ≠ .opened) : Asked false .listening .closed r 2
  | ended : Asked true .ended .closed .closed 0

/-- The answerer from the message to its reaction: the data in the pipe, its read end, its rank. -/
inductive Hearing (m : List β) : AnswererPC β → List β → FifoEnd → ℕ → Prop
  | waiting : Hearing m .opening m .opened 5
  | read : Hearing m (.read m) [] .opened 4
  | reacting : Hearing m (.reacting m) [] .closed 3

/-- What a writer has to do for these pieces. -/
def weight (pieces : List (List β)) : ℕ := pieces.flatten.length + pieces.length

/-- The answerer serves what the service does, whatever its choices are, and leaves on `bye`; each
    message is read at once. -/
structure Serves (d : Answerer σ κ β) (g : Service τ ι (List β)) (R : σ → τ → Prop)
    (Q : List β → ι → Prop) (bye : List β) : Prop where
  serve : ∀ s t m i t' o, R s t → Q m i → g.serve t i = some (t', o) → ∀ choice,
    ∃ s' pieces, d.react s choice m = some (s', some pieces) ∧ pieces.flatten = o ∧ R s' t'
  leave : ∀ s t, R s t → ∀ choice, ∃ s', d.react s choice bye = some (s', none) ∧ R s' t
  fits : ∀ m i, Q m i → m ≠ [] ∧ m.length ≤ d.messageSize
  bye_fits : bye ≠ [] ∧ bye.length ≤ d.messageSize
  room : 0 < d.answerSize

/-- The service has answered this, and has these messages ahead of it; in the end it is in `t'` and
    has answered `outs`. -/
def Ahead (g : Service τ ι (List β)) (Q : List β → ι → Prop) (t' : τ) (outs : List (List β))
    (t : τ) (asks answered : List (List β)) : Prop :=
  ∃ is rest, List.Forall₂ Q asks is ∧ g.session t is = some (t', rest) ∧ answered ++ rest = outs

section Phases

variable {d : Answerer σ κ β} {g : Service τ ι (List β)} {R : σ → τ → Prop}
  {Q : List β → ι → Prop} {bye : List β} {t' : τ} {outs : List (List β)}

theorem Ahead.cons {t : τ} {m : List β} {asks answered : List (List β)}
    (h : Ahead g Q t' outs t (m :: asks) answered) :
    ∃ i t₁ o, Q m i ∧ g.serve t i = some (t₁, o) ∧ Ahead g Q t' outs t₁ asks (answered ++ [o]) := by
  obtain ⟨is, rest, hQ, hsession, houts⟩ := h
  cases hQ with
  | @cons _ i _ is hi hrest =>
      obtain ⟨t₁, o, os, hserve, hbehind, rfl⟩ := Service.session_cons_eq_some.1 hsession
      exact ⟨i, t₁, o, hi, hserve, is, os, hrest, hbehind, by rw [← houts, List.append_assoc]; rfl⟩

theorem Ahead.nil {t : τ} {answered : List (List β)} (h : Ahead g Q t' outs t [] answered) :
    t = t' ∧ answered = outs := by
  obtain ⟨is, rest, hQ, hsession, houts⟩ := h
  cases hQ
  cases hsession
  exact ⟨rfl, by rw [← houts, List.append_nil]⟩

theorem Ahead.prefix {t : τ} {asks answered : List (List β)}
    (h : Ahead g Q t' outs t asks answered) : answered <+: outs := by
  obtain ⟨is, rest, -, -, rfl⟩ := h
  exact List.prefix_append _ _

/-- The phases of a dialogue, with a rank: the messages and the places of the two, then the ends to
    be opened and the data to be moved. -/
inductive Phase (g : Service τ ι (List β)) (R : σ → τ → Prop) (Q : List β → ι → Prop)
    (bye : List β) (t' : τ) (outs : List (List β)) : ℕ ×ₗ ℕ → Talk σ β → Prop
  /-- the two open the pipe for a message -/
  | asking {s : σ} {t : τ} {asks : List (List β)} {answers : List (List (List β))} {w r' : FifoEnd}
      (hR : R s t) (hahead : Ahead g Q t' outs t asks (answers.map List.flatten))
      (hmeet : Meeting w r') :
      Phase g R Q bye t' outs (toLex (10 * (asks.length + 1) + 9, toOpen w + toOpen r'))
        ⟨line [] .closed r' w .closed, .opening, asks ++ [bye], [], answers, .opening, s⟩
  /-- the message is on its way -/
  | asked {s : σ} {t : τ} {m : List β} {asks rest : List (List β)}
      {answers : List (List (List β))} {last : Bool} {pc : AskerPC} {pc' : AnswererPC β}
      {data : List β} {w r r' : FifoEnd} {a b : ℕ} (hR : R s t)
      (hahead : Ahead g Q t' outs t asks (answers.map List.flatten))
      (hmessages : asks ++ [bye] = m :: rest) (hlast : rest.isEmpty = last)
      (hasked : Asked last pc w r a) (hhearing : Hearing m pc' data r' b) :
      Phase g R Q bye t' outs (toLex (10 * (asks.length + 1) + (a + b), toOpen r))
        ⟨line data r r' w .closed, pc, m :: rest, [], answers, pc', s⟩
  /-- the two open the pipe for the answer -/
  | answering {s : σ} {t : τ} {m : List β} {asks pieces : List (List β)}
      {answers : List (List (List β))} {pc : AskerPC} {w r w' : FifoEnd} {a : ℕ} (hR : R s t)
      (hahead : Ahead g Q t' outs t asks (answers.map List.flatten ++ [pieces.flatten]))
      (hasked : Asked false pc w r a) (hmeet : Meeting w' r) (hw' : w' ≠ .opened) :
      Phase g R Q bye t' outs
        (toLex (10 * (asks.length + 2) + (a + 2), toOpen w' + toOpen r + weight pieces))
        ⟨line [] r .closed w w', pc, m :: (asks ++ [bye]), [], answers, .answering pieces, s⟩
  /-- the answer is written and read -/
  | telling {s : σ} {t : τ} {m data : List β} {asks pieces heard : List (List β)}
      {answers : List (List (List β))} (hR : R s t)
      (hahead : Ahead g Q t' outs t asks
        (answers.map List.flatten ++ [heard.flatten ++ (data ++ pieces.flatten)])) :
      Phase g R Q bye t' outs
        (toLex (10 * (asks.length + 2) + 4, data.length + weight pieces))
        ⟨line data .opened .closed .closed .opened, .listening, m :: (asks ++ [bye]), heard,
          answers, .answering pieces, s⟩
  /-- the answer is written, and the rest of it is read -/
  | told {s : σ} {t : τ} {m data : List β} {asks heard : List (List β)}
      {answers : List (List (List β))} {r' : FifoEnd} (hR : R s t)
      (hahead : Ahead g Q t' outs t asks
        (answers.map List.flatten ++ [heard.flatten ++ data])) (hr' : r' ≠ .opened) :
      Phase g R Q bye t' outs (toLex (10 * (asks.length + 2) + 3, data.length + toOpen r'))
        ⟨line data .opened r' .closed .closed, .listening, m :: (asks ++ [bye]), heard, answers,
          .opening, s⟩
  | heard {s : σ} {t : τ} {m : List β} {asks heard : List (List β)}
      {answers : List (List (List β))} {r' : FifoEnd} (hR : R s t)
      (hahead : Ahead g Q t' outs t asks (answers.map List.flatten ++ [heard.flatten]))
      (hr' : r' ≠ .opened) :
      Phase g R Q bye t' outs (toLex (10 * (asks.length + 2) + 2, toOpen r'))
        ⟨line [] .opened r' .closed .closed, .heard, m :: (asks ++ [bye]), heard, answers,
          .opening, s⟩
  /-- the answerer has left -/
  | left {s : σ} {answers : List (List (List β))} {pc : AskerPC} {w r : FifoEnd} {a : ℕ}
      (hR : R s t') (houts : answers.map List.flatten = outs) (hasked : Asked true pc w r a) :
      Phase g R Q bye t' outs (toLex (10 + a, 0))
        ⟨line [] r .closed w .closed, pc, [bye], [], answers, .ended, s⟩

/-! ## What a step does -/

theorem rank_fst {a b m n : ℕ} (h : a < b) : toLex (a, m) < toLex (b, n) :=
  Prod.Lex.toLex_lt_toLex.2 (.inl h)

theorem rank_snd {a m n : ℕ} (h : m < n) : toLex (a, m) < toLex (a, n) :=
  Prod.Lex.toLex_lt_toLex.2 (.inr ⟨rfl, h⟩)

theorem exists_messages (asks : List (List β)) (bye : List β) :
    ∃ m rest, asks ++ [bye] = m :: rest :=
  List.exists_cons_of_ne_nil (by simp)

theorem isEmpty_append_bye (asks : List (List β)) (bye : List β) :
    (asks ++ [bye]).isEmpty = false := by
  simp

theorem opened_ne : FifoEnd.opened ≠ .closed := by decide

/-- The asker has closed the pipe behind its message. -/
theorem asked_closed (last : Bool) :
    ∃ a < 3, Asked last (if last then .ended else .listening) .closed .closed a := by
  cases last with
  | true => exact ⟨0, by decide, .ended⟩
  | false => exact ⟨2, by decide, .listening (by decide)⟩

/-- While the message is heard, nothing of it is lost. -/
theorem Hearing.kept {m data : List β} {pc : AnswererPC β} {r' : FifoEnd} {b : ℕ}
    (h : Hearing m pc data r' b) : data = [] ∨ r' ≠ .closed := by
  cases h with
  | waiting | read => exact .inr opened_ne
  | reacting => exact .inl rfl

/-- A `read` takes some of the data. -/
theorem taken {size : ℕ} (hsize : 0 < size) {data : List β} (hdata : data ≠ [])
    (heard : List (List β)) :
    (data.take size).isEmpty = false ∧ (data.drop size).length < data.length ∧
      ∀ rest, (heard ++ [data.take size]).flatten ++ (data.drop size ++ rest)
        = heard.flatten ++ (data ++ rest) := by
  have hlength := List.length_pos_of_ne_nil hdata
  refine ⟨?_, by rw [List.length_drop]; omega, fun rest => ?_⟩
  · rw [List.isEmpty_eq_false_iff, ne_eq, List.take_eq_nil_iff, not_or]
    exact ⟨by omega, hdata⟩
  · rw [List.flatten_append, List.flatten_singleton, List.append_assoc, ← List.append_assoc,
      List.append_assoc, ← List.append_assoc (data.take size), List.take_append_drop]

theorem Phase.asker {size : ℕ} (hsize : 0 < size) {i : ℕ ×ₗ ℕ} {x x' : Talk σ β}
    (h : Phase g R Q bye t' outs i x) (hturn : askerTurn size x = some x') :
    ∃ j < i, Phase g R Q bye t' outs j x' := by
  cases h with
  | @asking s t asks answers w r' hR hahead hmeet =>
      obtain ⟨m, rest, hm⟩ := exists_messages asks bye
      cases hmeet with
      | apart =>
          simp only [askerTurn, hm, writers_asker, askerWrites_alone, Option.some.injEq] at hturn
          rw [← hturn, ← hm]
          exact ⟨_, rank_snd (by decide), .asking hR hahead .writer⟩
      | writer => simp only [askerTurn, hm, writers_asker, reduceCtorEq] at hturn
      | reader =>
          simp only [askerTurn, hm, writers_asker, askerWrites_meets, Option.some.injEq] at hturn
          rw [← hturn, ← hm]
          exact ⟨_, rank_snd (by decide), .asking hR hahead .met⟩
      | met =>
          simp only [askerTurn, hm, writers_asker, write_line (.inr opened_ne), List.nil_append,
            Option.map_some, Option.some.injEq] at hturn
          rw [← hturn]
          exact ⟨_, rank_fst (by omega), .asked hR hahead hm rfl (.written _) .waiting⟩
  | @asked s t m asks rest answers last pc pc' data w r r' a b hR hahead hm hlast hasked hhearing =>
      cases hasked with
      | written =>
          obtain ⟨a', ha', hasked'⟩ := asked_closed last
          simp only [askerTurn, askerClosesWrite (hhearing.kept.imp id fun h => .inl (.inr h)),
            hlast, Option.some.injEq] at hturn
          rw [← hturn]
          exact ⟨_, rank_fst (by omega), .asked hR hahead hm hlast hasked' hhearing⟩
      | @listening r hr =>
          cases r with
          | closed =>
              simp only [askerTurn, readers_asker, askerReads_alone, Option.some.injEq] at hturn
              rw [← hturn]
              exact ⟨_, rank_snd (by decide), .asked hR hahead hm hlast (.listening (by decide))
                hhearing⟩
          | opening => simp only [askerTurn, readers_asker, reduceCtorEq] at hturn
          | opened => exact absurd rfl hr
      | ended => simp only [askerTurn, reduceCtorEq] at hturn
  | @answering s t m asks pieces answers pc w r w' a hR hahead hasked hmeet hw' =>
      cases hasked with
      | written =>
          obtain ⟨a', ha', hasked'⟩ := asked_closed false
          simp only [askerTurn, askerClosesWrite (.inl rfl), isEmpty_append_bye,
            Option.some.injEq] at hturn
          rw [← hturn]
          exact ⟨_, rank_fst (by omega), .answering hR hahead hasked' hmeet hw'⟩
      | @listening r hr =>
          cases hmeet with
          | apart =>
              simp only [askerTurn, readers_asker, askerReads_alone, Option.some.injEq] at hturn
              rw [← hturn]
              exact ⟨_, rank_snd (by simp only [toOpen]; omega),
                .answering hR hahead (.listening (by decide)) .reader hw'⟩
          | writer =>
              simp only [askerTurn, readers_asker, askerReads_meets, Option.some.injEq] at hturn
              rw [← hturn]
              have hheard : answers.map List.flatten ++ [pieces.flatten]
                  = answers.map List.flatten ++ [([] : List (List β)).flatten ++
                      ([] ++ pieces.flatten)] := rfl
              rw [hheard] at hahead
              exact ⟨_, rank_snd (by simp only [toOpen, List.length_nil]; omega),
                .telling hR hahead⟩
          | reader => simp only [askerTurn, readers_asker, reduceCtorEq] at hturn
          | met => exact absurd rfl hw'
  | @telling s t m data asks pieces heard answers hR hahead =>
      by_cases hdata : data = []
      · subst hdata
        simp only [askerTurn, readers_asker, read_line_blocked (.inr opened_ne), Option.map_none,
          reduceCtorEq] at hturn
      · obtain ⟨htaken, hlength, hrest⟩ := taken hsize hdata heard
        simp only [askerTurn, readers_asker, read_line hdata, Option.map_some, htaken,
          Bool.false_eq_true, if_false, Option.some.injEq] at hturn
        rw [← hturn]
        rw [← hrest] at hahead
        exact ⟨_, rank_snd (by omega), .telling hR hahead⟩
  | @told s t m data asks heard answers r' hR hahead hr' =>
      by_cases hdata : data = []
      · subst hdata
        simp only [askerTurn, readers_asker, read_line_end, Option.map_some, List.isEmpty_nil,
          if_true, Option.some.injEq] at hturn
        rw [← hturn]
        rw [List.append_nil] at hahead
        exact ⟨_, rank_fst (by omega), .heard hR hahead hr'⟩
      · obtain ⟨htaken, hlength, hrest⟩ := taken hsize hdata heard
        simp only [askerTurn, readers_asker, read_line hdata, Option.map_some, htaken,
          Bool.false_eq_true, if_false, Option.some.injEq] at hturn
        rw [← hturn]
        have hnil := hrest []
        rw [List.append_nil, List.append_nil] at hnil
        rw [← hnil] at hahead
        exact ⟨_, rank_snd (by omega), .told hR hahead hr'⟩
  | @heard s t m asks heard answers r' hR hahead hr' =>
      simp only [askerTurn, askerClosesRead, Option.some.injEq] at hturn
      rw [← hturn]
      have hanswers : (answers ++ [heard]).map List.flatten
          = answers.map List.flatten ++ [heard.flatten] := by simp
      rw [← hanswers] at hahead
      have hmeet : Meeting .closed r' := by
        cases r' with
        | closed => exact .apart
        | opening => exact .reader
        | opened => exact absurd rfl hr'
      exact ⟨_, rank_fst (by omega), .asking hR hahead hmeet⟩
  | @left s answers pc w r a hR houts hasked =>
      cases hasked with
      | written =>
          simp only [askerTurn, askerClosesWrite (.inl rfl), List.isEmpty_nil, if_true,
            Option.some.injEq] at hturn
          rw [← hturn]
          exact ⟨_, rank_fst (by decide), .left hR houts .ended⟩
      | ended => simp only [askerTurn, reduceCtorEq] at hturn

/-- The message that is sent is read at once. -/
theorem Ahead.fits (hd : Serves d g R Q bye) {t : τ} {m : List β}
    {asks answered rest : List (List β)} (h : Ahead g Q t' outs t asks answered)
    (hm : asks ++ [bye] = m :: rest) : m ≠ [] ∧ m.length ≤ d.messageSize := by
  cases asks with
  | nil =>
      obtain rfl : bye = m := (List.cons.inj hm).1
      exact hd.bye_fits
  | cons m' asks =>
      obtain rfl : m' = m := (List.cons.inj hm).1
      obtain ⟨i, -, -, hQ, -⟩ := h.cons
      exact hd.fits m' i hQ

theorem Phase.answerer (hd : Serves d g R Q bye) {choice : κ} {i : ℕ ×ₗ ℕ} {x x' : Talk σ β}
    (h : Phase g R Q bye t' outs i x) (hturn : answererTurn d choice x = some x') :
    ∃ j < i, Phase g R Q bye t' outs j x' := by
  cases h with
  | @asking s t asks answers w r' hR hahead hmeet =>
      cases hmeet with
      | apart =>
          simp only [answererTurn, readers_answerer, answererReads_alone, Option.some.injEq]
            at hturn
          rw [← hturn]
          exact ⟨_, rank_snd (by decide), .asking hR hahead .reader⟩
      | writer =>
          simp only [answererTurn, readers_answerer, answererReads_meets, Option.some.injEq]
            at hturn
          rw [← hturn]
          exact ⟨_, rank_snd (by decide), .asking hR hahead .met⟩
      | reader => simp only [answererTurn, readers_answerer, reduceCtorEq] at hturn
      | met =>
          simp only [answererTurn, readers_answerer, read_line_blocked (.inl opened_ne),
            Option.map_none, reduceCtorEq] at hturn
  | @asked s t m asks rest answers last pc pc' data w r r' a b hR hahead hm hlast hasked hhearing =>
      have hfits := hahead.fits hd hm
      cases hhearing with
      | waiting =>
          simp only [answererTurn, readers_answerer, read_line hfits.1, Option.map_some,
            List.take_of_length_le hfits.2, List.drop_of_length_le hfits.2, Option.some.injEq]
            at hturn
          rw [← hturn]
          exact ⟨_, rank_fst (by omega), .asked hR hahead hm hlast hasked .read⟩
      | read =>
          simp only [answererTurn, answererClosesRead, Option.some.injEq] at hturn
          rw [← hturn]
          exact ⟨_, rank_fst (by omega), .asked hR hahead hm hlast hasked .reacting⟩
      | reacting =>
          cases asks with
          | nil =>
              obtain ⟨rfl, rfl⟩ := List.cons.inj hm
              obtain rfl : true = last := hlast
              obtain ⟨rfl, houts⟩ := hahead.nil
              obtain ⟨s', hreact, hR'⟩ := hd.leave s t hR choice
              simp only [answererTurn, hreact, Option.map_some, Option.some.injEq] at hturn
              rw [← hturn]
              exact ⟨_, rank_fst (by simp only [List.length_nil]; omega), .left hR' houts hasked⟩
          | cons m' asks =>
              obtain ⟨rfl, rfl⟩ := List.cons.inj hm
              obtain rfl : false = last := (isEmpty_append_bye asks bye).symm.trans hlast
              obtain ⟨i, t₁, o, hQ, hserve, hahead'⟩ := hahead.cons
              obtain ⟨s', pieces, hreact, rfl, hR'⟩ := hd.serve s t m' i t₁ o hR hQ hserve choice
              simp only [answererTurn, hreact, Option.map_some, Option.some.injEq] at hturn
              rw [← hturn]
              have hmeet : Meeting .closed r := by
                cases hasked with
                | written => exact .apart
                | @listening r hr =>
                    cases r with
                    | closed => exact .apart
                    | opening => exact .reader
                    | opened => exact absurd rfl hr
              exact ⟨_, rank_fst (by simp only [List.length_cons]; omega),
                .answering hR' hahead' hasked hmeet (by decide)⟩
  | @answering s t m asks pieces answers pc w r w' a hR hahead hasked hmeet hw' =>
      cases hmeet with
      | apart =>
          simp only [answererTurn, writers_answerer, answererWrites_alone, Option.some.injEq]
            at hturn
          rw [← hturn]
          exact ⟨_, rank_snd (by simp only [toOpen]; omega),
            .answering hR hahead hasked .writer (by decide)⟩
      | writer => simp only [answererTurn, writers_answerer, reduceCtorEq] at hturn
      | reader =>
          cases hasked with
          | listening hr =>
              simp only [answererTurn, writers_answerer, answererWrites_meets, Option.some.injEq]
                at hturn
              rw [← hturn]
              have hheard : answers.map List.flatten ++ [pieces.flatten]
                  = answers.map List.flatten ++ [([] : List (List β)).flatten ++
                      ([] ++ pieces.flatten)] := rfl
              rw [hheard] at hahead
              exact ⟨_, rank_snd (by simp only [toOpen, List.length_nil]; omega),
                .telling hR hahead⟩
      | met => exact absurd rfl hw'
  | @telling s t m data asks pieces heard answers hR hahead =>
      cases pieces with
      | nil =>
          simp only [answererTurn, writers_answerer,
            answererClosesWrite (.inr (.inl (.inl opened_ne))), Option.some.injEq] at hturn
          rw [← hturn]
          rw [List.flatten_nil, List.append_nil] at hahead
          exact ⟨_, rank_fst (by omega), .told hR hahead (by decide)⟩
      | cons p pieces =>
          simp only [answererTurn, writers_answerer, write_line (.inl opened_ne), Option.map_some,
            Option.some.injEq] at hturn
          rw [← hturn]
          rw [List.flatten_cons, ← List.append_assoc data] at hahead
          refine ⟨_, rank_snd ?_, .telling hR hahead⟩
          simp only [weight, List.flatten_cons, List.length_append, List.length_cons]
          omega
  | @told s t m data asks heard answers r' hR hahead hr' =>
      cases r' with
      | closed =>
          simp only [answererTurn, readers_answerer, answererReads_alone, Option.some.injEq]
            at hturn
          rw [← hturn]
          exact ⟨_, rank_snd (by simp only [toOpen]; omega), .told hR hahead (by decide)⟩
      | opening => simp only [answererTurn, readers_answerer, reduceCtorEq] at hturn
      | opened => exact absurd rfl hr'
  | @heard s t m asks heard answers r' hR hahead hr' =>
      cases r' with
      | closed =>
          simp only [answererTurn, readers_answerer, answererReads_alone, Option.some.injEq]
            at hturn
          rw [← hturn]
          exact ⟨_, rank_snd (by decide), .heard hR hahead (by decide)⟩
      | opening => simp only [answererTurn, readers_answerer, reduceCtorEq] at hturn
      | opened => exact absurd rfl hr'
  | @left s answers pc w r a hR houts hasked =>
      simp only [answererTurn, reduceCtorEq] at hturn

/-! ## Where nobody can move -/

/-- The message is heard, and reacted to. -/
theorem Hearing.moves (hd : Serves d g R Q bye) {s : σ} {t : τ} {m data : List β}
    {asks rest : List (List β)} {answered : List (List β)} (hR : R s t)
    (hahead : Ahead g Q t' outs t asks answered) (hm : asks ++ [bye] = m :: rest)
    {pc : AskerPC} {pc' : AnswererPC β} {r r' w : FifoEnd} {b : ℕ} (h : Hearing m pc' data r' b)
    {heard : List (List β)} {answers : List (List (List β))} (choice : κ) :
    answererTurn d choice
      ⟨line data r r' w .closed, pc, m :: rest, heard, answers, pc', s⟩ ≠ none := by
  cases h with
  | waiting =>
      simp only [answererTurn, readers_answerer, read_line (hahead.fits hd hm).1, Option.map_some]
      exact Option.some_ne_none _
  | read => exact Option.some_ne_none _
  | reacting =>
      cases asks with
      | nil =>
          obtain ⟨rfl, rfl⟩ := List.cons.inj hm
          obtain ⟨s', hreact, -⟩ := hd.leave s t hR choice
          simp only [answererTurn, hreact, Option.map_some]
          exact Option.some_ne_none _
      | cons m' asks =>
          obtain ⟨rfl, rfl⟩ := List.cons.inj hm
          obtain ⟨i, t₁, o, hQ, hserve, -⟩ := hahead.cons
          obtain ⟨s', pieces, hreact, -⟩ := hd.serve s t m' i t₁ o hR hQ hserve choice
          simp only [answererTurn, hreact, Option.map_some]
          exact Option.some_ne_none _

/-- Somebody can move, or both have ended and all messages have their answers. -/
theorem Phase.final (hd : Serves d g R Q bye) (choice : κ) {i : ℕ ×ₗ ℕ} {x : Talk σ β}
    (h : Phase g R Q bye t' outs i x) (hasker : askerTurn d.answerSize x = none)
    (hanswerer : answererTurn d choice x = none) :
    (x.asker = .ended ∧ x.answerer = .ended) ∧ x.answers.map List.flatten = outs ∧
      R x.state t' := by
  cases h with
  | @asking s t asks answers w r' hR hahead hmeet =>
      obtain ⟨m, rest, hm⟩ := exists_messages asks bye
      cases hmeet with
      | apart | reader => simp only [askerTurn, hm, writers_asker, reduceCtorEq] at hasker
      | writer => simp only [answererTurn, readers_answerer, reduceCtorEq] at hanswerer
      | met =>
          simp only [askerTurn, hm, writers_asker, write_line (.inr opened_ne), Option.map_some,
            reduceCtorEq] at hasker
  | @asked s t m asks rest answers last pc pc' data w r r' a b hR hahead hm hlast hasked hhearing =>
      exact absurd hanswerer (hhearing.moves hd hR hahead hm choice)
  | @answering s t m asks pieces answers pc w r w' a hR hahead hasked hmeet hw' =>
      cases hmeet with
      | apart | reader => simp only [answererTurn, writers_answerer, reduceCtorEq] at hanswerer
      | writer =>
          cases hasked with
          | written => simp only [askerTurn, reduceCtorEq] at hasker
          | listening => simp only [askerTurn, readers_asker, reduceCtorEq] at hasker
      | met => exact absurd rfl hw'
  | @telling s t m data asks pieces heard answers hR hahead =>
      cases pieces with
      | nil => simp only [answererTurn, writers_answerer, reduceCtorEq] at hanswerer
      | cons p pieces =>
          simp only [answererTurn, writers_answerer, write_line (.inl opened_ne), Option.map_some,
            reduceCtorEq] at hanswerer
  | @told s t m data asks heard answers r' hR hahead hr' =>
      by_cases hdata : data = []
      · subst hdata
        simp only [askerTurn, readers_asker, read_line_end, Option.map_some, reduceCtorEq]
          at hasker
      · simp only [askerTurn, readers_asker, read_line hdata, Option.map_some, reduceCtorEq]
          at hasker
  | @heard s t m asks heard answers r' hR hahead hr' =>
      simp only [askerTurn, reduceCtorEq] at hasker
  | @left s answers pc w r a hR houts hasked =>
      cases hasked with
      | written => simp only [askerTurn, reduceCtorEq] at hasker
      | ended => exact ⟨⟨rfl, rfl⟩, houts, hR⟩

end Phases

/-! ## Whole dialogues -/

section Dialogues

variable {d : Answerer σ κ β} {g : Service τ ι (List β)} {R : σ → τ → Prop}
  {Q : List β → ι → Prop} {bye : List β} {s : σ} {t t' : τ} {asks : List (List β)} {is : List ι}
  {outs : List (List β)}

theorem phase_start (hR : R s t) (hQ : List.Forall₂ Q asks is)
    (hsession : g.session t is = some (t', outs)) :
    Phase g R Q bye t' outs (toLex (10 * (asks.length + 1) + 9, 4)) (start (asks ++ [bye]) s) := by
  have hahead : Ahead g Q t' outs t asks (([] : List (List (List β))).map List.flatten) :=
    ⟨is, outs, hQ, hsession, rfl⟩
  rw [start, empty_eq_line]
  exact .asking hR hahead .apart

theorem phase_step (hd : Serves d g R Q bye) {messages : List (List β)} (i : ℕ ×ₗ ℕ)
    (x : Talk σ β) (a : Move κ) (x' : Talk σ β) (h : Phase g R Q bye t' outs i x)
    (hnext : (machine d messages s).next x a = some x') :
    ∃ j < i, Phase g R Q bye t' outs j x' := by
  cases a with
  | asker => exact h.asker hd.room hnext
  | answerer choice => exact h.answerer hd hnext

theorem phase_reachable (hd : Serves d g R Q bye) (hR : R s t) (hQ : List.Forall₂ Q asks is)
    (hsession : g.session t is = some (t', outs)) {x : Talk σ β}
    (h : (machine d (asks ++ [bye]) s).Reachable x) : ∃ i, Phase g R Q bye t' outs i x := by
  refine Machine.Reachable.invariant (I := fun x => ∃ i, Phase g R Q bye t' outs i x) ?_ ?_ h
  · rintro x rfl
    exact ⟨_, phase_start hR hQ hsession⟩
  · rintro x a x' - ⟨i, hphase⟩ hnext
    obtain ⟨j, -, hphase'⟩ := phase_step hd i x a x' hphase hnext
    exact ⟨j, hphase'⟩

theorem Phase.answered {i : ℕ ×ₗ ℕ} {x : Talk σ β} (h : Phase g R Q bye t' outs i x) :
    x.answers.map List.flatten <+: outs := by
  cases h with
  | asking _ hahead | asked _ hahead => exact hahead.prefix
  | answering _ hahead | telling _ hahead | told _ hahead | heard _ hahead =>
      exact (List.prefix_append _ _).trans hahead.prefix
  | left _ houts => exact houts ▸ List.prefix_rfl

end Dialogues

end Dialogue

end SystemProgramming
