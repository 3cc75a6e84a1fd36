import LivePage.Session.World

namespace LivePage.Session

def World.note (w : World) (event : Event) : World :=
  { w with events := w.events ++ [event] }

def noting (k : StoreId) (tag : String) (observe : Option Register) : Subscriber World :=
  fun name value ↦ .act (fun data w ↦
    let w := w.withData k data
    w.note ⟨tag, name, value, observe.map w.shown⟩) .stop

namespace Reaction

variable (r : Reaction)

def setting : Script World :=
  match r.set with
  | some (name, value) => .set name value
  | none => .stop

def counting (name : String) : Value → Script World
  | .number n =>
    match r.below with
    | some bound => if n.less bound then .set name (.number (n.add (.ofNat 1))) else .stop
    | none => .stop
  | _ => .stop

def joining (k : StoreId) : Script World :=
  match r.subscribe with
  | some tag => .listen (noting k tag none) .stop
  | none => .stop

def subscriber (k : StoreId) (tag : String) : Subscriber World :=
  fun name value ↦ (noting k tag r.observe name value).andThen
    (if r.trigger = some name then
      (r.setting.andThen (r.counting name value)).andThen (r.joining k)
    else .stop)

end Reaction

namespace Change

variable (c : Change)

def apply (v : Value) : Value :=
  match c.replace.getD v with
  | .list items =>
    let items := items ++ c.push.toList
    .list (if c.pop then items.dropLast else items)
  | .number n => .number ((c.add.map n.add).getD n)
  | .string s => .string (s ++ c.concat.getD "")
  | .bool b => .bool (if c.negate then !b else b)

def script (v : Value) (next : Value → Script World) : Script World :=
  .look fun data _ ↦
    let v := (c.copy.bind data.get?).getD v
    match c.write with
    | some (name, value) => .write name value (next (c.apply v))
    | none => next (c.apply v)

end Change

end LivePage.Session
