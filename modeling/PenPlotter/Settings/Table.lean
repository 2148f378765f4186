import PenPlotter.Settings
import PenPlotter.Toml.Document

/-!
# Settings from tables

Settings are entries of a table, each with a default.  An entry of the wrong kind
spoils all of them; entries with other keys do not count.  Where a number with a
fraction is expected an integer will do.

## Main definitions

* `Settings.ofTable?` — the settings in a table.
* `Settings.ofToml?` — the settings in a TOML document.
-/

namespace PenPlotter
namespace Settings

open Toml (Table Value)

/-- The value of an entry, read in some way, or the default without an entry. -/
def entry (read : Value → Option α) (t : Table) (key : String) (default : α) : Option α :=
  match t.get? key.toList with
  | some v => read v
  | none => some default

/-- A number; an integer must fit into 64 bits, with or without a sign. -/
def number? : Value → Option Float
  | .float x => some x
  | .integer n =>
    if -(Nat.pow 2 63 : Int) ≤ n ∧ n < Nat.pow 2 64 then some (Float.ofInt n) else none
  | _ => none

/-- A count of 64 bits. -/
def count? : Value → Option Nat
  | .integer n => if 0 ≤ n ∧ n < Nat.pow 2 64 then some n.toNat else none
  | _ => none

/-- A truth value. -/
def flag? : Value → Option Bool
  | .boolean b => some b
  | _ => none

/-- A colour, as text. -/
def color? : Value → Option Color
  | .string text => Color.ofHex? text
  | _ => none

/-- The settings in a table. -/
def ofTable? (t : Table) : Option Settings := do
  let defaults : Settings := {}
  some
    { home :=
        { x := ← entry number? t "home_x" defaults.home.x
          y := ← entry number? t "home_y" defaults.home.y }
      penUpAngle := ← entry number? t "pen_up_angle" defaults.penUpAngle
      penDownAngle := ← entry number? t "pen_down_angle" defaults.penDownAngle
      feedRate := ← entry number? t "pen_down_feed_rate" defaults.feedRate
      acceleration := ← entry number? t "acceleration" defaults.acceleration
      zRate := ← entry number? t "z_rate" defaults.zRate
      penUpColor := ← entry color? t "pen_up_color" defaults.penUpColor
      penDownColor := ← entry color? t "pen_down_color" defaults.penDownColor
      showPenUp := ← entry flag? t "show_pen_up" defaults.showPenUp
      reverseForGlass := ← entry flag? t "reverse_for_glass" defaults.reverseForGlass
      lookAhead := ← entry count? t "look_ahead_segments" defaults.lookAhead
      drawAll := ← entry flag? t "draw_all_while_running" defaults.drawAll }

/-- The settings in a TOML document. -/
def ofToml? (text : Text) : Option Settings := (Toml.parse? text).bind ofTable?

end Settings
end PenPlotter
