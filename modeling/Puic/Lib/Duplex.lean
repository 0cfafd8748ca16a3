/-
  Two parties of one kind that talk to each other.

  In a step one party acts; what it does may depend on the other one, for instance on
  what that party has put on the wire, but changes only itself.  An invariant of the
  pair is given in two parts: what a party knows about itself, and what it knows
  about its peer, which has to survive whatever the peer does on its own.
-/
import Puic.Lib.Run

universe u v

inductive Side where
  | client
  | server
deriving Repr, DecidableEq

/-- The states of the two parties. -/
structure Duplex (X : Type u) where
  client : X
  server : X

namespace Duplex

variable {X : Type u} {A : Type v}

def mine (p : Duplex X) : Side → X
  | .client => p.client
  | .server => p.server

def other (p : Duplex X) : Side → X
  | .client => p.server
  | .server => p.client

/-- The party at `side` acts. -/
def step (act : X → X → A → Option X) (p : Duplex X) : Side × A → Option (Duplex X)
  | (.client, a) => (act p.client p.server a).map ({ p with client := · })
  | (.server, a) => (act p.server p.client a).map ({ p with server := · })

section

variable {act : X → X → A → Option X} {Own : X → Prop} {Cross Grows : X → X → Prop}

/-- Both parties know what they should about themselves and about each other. -/
def Sound (Own : X → Prop) (Cross : X → X → Prop) (p : Duplex X) : Prop :=
  ∀ side, Own (p.mine side) ∧ Cross (p.mine side) (p.other side)

theorem Sound.step (hact : ∀ x y a x', Own x → Own y → Cross x y → act x y a = some x' → Own x' ∧
    Cross x' y ∧ Grows x x')
    (hgrows : ∀ x y y', Cross x y → Grows y y' → Cross x y') {p p' : Duplex X} {e : Side × A}
    (h : p.Sound Own Cross) (hs : p.step act e = some p') : p'.Sound Own Cross := by
  have hc := h .client
  have hv := h .server
  obtain ⟨side, a⟩ := e
  cases side with
  | client =>
    obtain ⟨x, hx, rfl⟩ := Option.map_eq_some_iff.1 hs
    obtain ⟨hown, hcross, hg⟩ := hact _ _ _ _ hc.1 hv.1 hc.2 hx
    rintro (_ | _)
    · exact ⟨hown, hcross⟩
    · exact ⟨hv.1, hgrows _ _ _ hv.2 hg⟩
  | server =>
    obtain ⟨x, hx, rfl⟩ := Option.map_eq_some_iff.1 hs
    obtain ⟨hown, hcross, hg⟩ := hact _ _ _ _ hv.1 hc.1 hv.2 hx
    rintro (_ | _)
    · exact ⟨hc.1, hgrows _ _ _ hc.2 hg⟩
    · exact ⟨hown, hcross⟩

theorem run_sound (hact : ∀ x y a x', Own x → Own y → Cross x y → act x y a = some x' → Own x' ∧
    Cross x' y ∧ Grows x x')
    (hgrows : ∀ x y y', Cross x y → Grows y y' → Cross x y') {p p' : Duplex X} {es : List (Side × A)}
    (h : p.Sound Own Cross) (hr : Machine.run (Duplex.step act) p es = some p') : p'.Sound Own Cross :=
  Machine.run_inv (fun _ _ _ h hs => h.step hact hgrows hs) h hr

end

end Duplex
