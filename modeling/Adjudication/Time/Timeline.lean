import Adjudication.Time.Seconds

/-!
A clock and the cancel tokens that live by it. A token is a flag, an optional deadline and an optional parent; it
counts as cancelled when its flag is set, when its deadline has been reached, or when its parent counts as
cancelled. Cancelling a token leaves its parent alone. Cancellations can be scheduled: they happen when the
clock is moved to their instant or past it.
-/

namespace Adjudication.Time

open Seconds (add sub le lt larger lesser slice)

abbrev TokenId := Nat

structure Token (σ : Type) where
  flagged : Bool
  deadline : Option σ
  parent : Option TokenId
  deriving Repr

/-- The clock, all tokens, and the cancellations still to come in the order in which they were scheduled. -/
structure Timeline (σ : Type) where
  now : σ
  tokens : List (Token σ)
  scheduled : List (σ × TokenId)

namespace Timeline

variable {σ : Type} [Seconds σ]

/-- A clock at its start, without tokens. -/
def start : Timeline σ := ⟨Seconds.zero, [], []⟩

/-- Adds a token; a deadline is given from now on. -/
def addToken (t : Timeline σ) (deadline : Option σ) (parent : Option TokenId) :
    TokenId × Timeline σ :=
  (t.tokens.length, { t with tokens := t.tokens ++ [⟨false, deadline.map (add t.now), parent⟩] })

/-- Sets a token's flag. -/
def cancel (t : Timeline σ) (id : TokenId) : Timeline σ :=
  { t with tokens := t.tokens.modify id fun token => { token with flagged := true } }

/-- A token and its ancestors, up to `fuel` of them. Parents are older than their children, so the number of
    tokens is fuel enough. -/
def lineage (t : Timeline σ) : (fuel : Nat) → TokenId → List TokenId
  | 0, _ => []
  | fuel + 1, id =>
    match t.tokens[id]? with
    | none => []
    | some token =>
      match token.parent with
      | none => [id]
      | some parent => id :: lineage t fuel parent

def chain (t : Timeline σ) (id : TokenId) : List TokenId := t.lineage t.tokens.length id

/-- Whether a deadline has been reached. -/
def reached (t : Timeline σ) (deadline : Option σ) : Bool :=
  match deadline with
  | none => false
  | some d => le d t.now

/-- Whether one of the tokens is cancelled, asked in order up to the first that is. The answer sets the flag
    of a token whose deadline has been reached. -/
def anyCancelled (t : Timeline σ) : List TokenId → Bool × Timeline σ
  | [] => (false, t)
  | id :: rest =>
    match t.tokens[id]? with
    | none => anyCancelled t rest
    | some token =>
      if token.flagged then (true, t)
      else if t.reached token.deadline then (true, t.cancel id)
      else anyCancelled t rest

/-- Whether a token counts as cancelled. -/
def isCancelled (t : Timeline σ) (id : TokenId) : Bool × Timeline σ := t.anyCancelled (t.chain id)

/-- The least time that is left to one of the tokens; nothing if none has a deadline. -/
def leastRemaining (t : Timeline σ) : List TokenId → Option σ
  | [] => none
  | id :: rest =>
    let inherited := leastRemaining t rest
    match (t.tokens[id]?).bind Token.deadline with
    | none => inherited
    | some d =>
      let own := larger Seconds.zero (sub d t.now)
      match inherited with
      | none => some own
      | some other => if lt other own then some other else some own

/-- The time left until the nearest deadline of a token and its ancestors. -/
def remaining (t : Timeline σ) (id : TokenId) : Option σ := t.leastRemaining (t.chain id)

/-- Schedules the cancellation of a token at an instant. -/
def schedule (t : Timeline σ) (instant : σ) (id : TokenId) : Timeline σ :=
  { t with scheduled := t.scheduled ++ [(instant, id)] }

/-- The first of the earliest entries that are due at an instant, and the entries without it. -/
def splitDue (goal : σ) : List (σ × TokenId) → Option ((σ × TokenId) × List (σ × TokenId))
  | [] => none
  | entry :: rest =>
    match splitDue goal rest with
    | some (other, rest') =>
      if le entry.1 goal ∧ le entry.1 other.1 then some (entry, rest)
      else some (other, entry :: rest')
    | none => if le entry.1 goal then some (entry, rest) else none

/-- Moves the clock to an instant. Cancellations that fall due on the way happen in the order of their
    instants; if one sets the flag of the token that is waited on, the move ends there. -/
def moveTo (target : σ) (waiting : Option TokenId) : (fuel : Nat) → Timeline σ → Timeline σ
  | 0, t => { t with now := target }
  | fuel + 1, t =>
    match splitDue target t.scheduled with
    | none => { t with now := target }
    | some ((instant, id), rest) =>
      let t := ({ t with now := larger t.now instant, scheduled := rest }).cancel id
      if waiting = some id then t else moveTo target waiting fuel t

/-- Moves the clock by a length of time. -/
def advance (t : Timeline σ) (seconds : σ) : Timeline σ :=
  moveTo (add t.now seconds) none t.scheduled.length t

/-! ### Waiting -/

/-- What one round of a wait comes to: an answer, or a slice of time waited through. -/
inductive Round (σ : Type) where
  | done (cancelled : Bool) (t : Timeline σ)
  | again (slice : σ) (t : Timeline σ)

/-- One round of waiting for a token until an instant. A slice ends at the instant, at the token's nearest
    deadline, and, since a parent's cancellation does not end it, after a twentieth of a second where there
    is a parent. -/
def waitRound (id : TokenId) (goal : σ) (t : Timeline σ) : Round σ :=
  let (cancelled, t) := t.isCancelled id
  if cancelled then .done true t
  else
    let left := sub goal t.now
    if le left Seconds.zero then .done false t
    else
      let left := match t.remaining id with
        | none => left
        | some r => lesser left r
      let hasParent := ((t.tokens[id]?).bind Token.parent).isSome
      let left := if hasParent then lesser left slice else left
      .again left (moveTo (add t.now left) (some id) t.scheduled.length t)

/-- Waits round by round, `patience` rounds at most. -/
def waitRounds (id : TokenId) (goal : σ) : (patience : Nat) → Timeline σ → Option (Bool × Timeline σ)
  | 0, _ => none
  | patience + 1, t =>
    match waitRound id goal t with
    | .done cancelled t => some (cancelled, t)
    | .again _ t => waitRounds id goal patience t

/-- Waits for a length of time or until the token counts as cancelled, and tells whether it does. A slice may be as long
    as any number of seconds; that a system bounds what it waits at once, by some 292 years, is left out. -/
def wait (patience : Nat) (t : Timeline σ) (id : TokenId) (seconds : σ) :
    Option (Bool × Timeline σ) :=
  waitRounds id (add t.now (larger Seconds.zero seconds)) patience t

end Timeline
end Adjudication.Time
