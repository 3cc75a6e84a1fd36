import LivePage.Page.Mount
import LivePage.Mount.Settings

namespace LivePage.Session

open Template

abbrev Register := String

/-- How a property is changed: the parts apply in this order, the last ones to values of the kind
that they fit. -/
structure Change where
  copy : Option String := none
  write : Option (String × Value) := none
  replace : Option Value := none
  push : Option Value := none
  pop : Bool := false
  add : Option Number := none
  concat : Option String := none
  negate : Bool := false

structure Reaction where
  observe : Option Register := none
  trigger : Option String := none
  set : Option (String × Value) := none
  below : Option Number := none
  subscribe : Option String := none

inductive MountSource
  | settings (s : MountSettings)
  | file (format : SettingsFormat) (text : String)

inductive DocumentAction
  | append (child : Register)
  | children (stem : Option Register)
  | body (into : Option Register)
  | byId (id : String) (into : Option Register)
  | text

inductive ElementAction
  | describe
  | id
  | classes
  | hasAttributes
  | getAttribute (name : String)
  | setAttribute (name value : String)
  | removeAttribute (name : String)
  | children (stem : Option Register)
  | count
  | parent (into : Option Register)
  | hasParent
  | text
  | setText (text : String)
  | inner
  | setInner (source : String)
  | outer
  | append (child : Register)
  | insertBefore (new reference : Register)
  | removeChild (child : Register)
  | before (new : Register)
  | remove
  | render (store : Register)
  | substitute (store : Register)
  | dispatch (store : Register) (stem : Option Register)
  | expand (store : Register) (loop : Loop) (stem : Option Register)

inductive StoreAction
  | get (name : String)
  | withValue (name : String) (write : Option (String × Value))
  | contains (name : String)
  | keys
  | snapshot
  | set (name : String) (value : Value)
  | subscriberCount
  | update (name : String) (change : Change)
  | subscribe (tag : String) (reaction : Reaction)

inductive AppAction
  | store (into : Option Register)
  | root (into : Option Register)
  | describe
  | rerender
  | clearDiagnostics
  | report (diagnostic : Diagnostic)

inductive Step
  | clone (source : Register) (into : Option Register)
  | drop (register : Register)
  | reveal (register : Register)
  | debug (register : Register)
  | eq (a b : Register)
  | newDocument (into : Option Register)
  | parse (source : String) (into : Option Register)
  | create (tag : String) (into : Option Register)
  | newStore (data : Data) (into : Option Register)
  | query (scope : Register) (selector : String) (into : Option Register)
  | queryAll (scope : Register) (selector : String) (stem : Option Register)
  | document (register : Register) (action : DocumentAction)
  | element (register : Register) (action : ElementAction)
  | store (register : Register) (action : StoreAction)
  | app (register : Register) (action : AppAction)
  | mount (document : Register) (source : MountSource) (mounted : Option (List Step))
      (into : Option Register)
  | lastMounted (into : Option Register)

inductive Shown
  | nothing
  | markup (s : String)
  | data (d : Data)
  | app (root : String) (passes : Nat) (diagnostics : List Diagnostic)

structure Event where
  tag : String
  name : String
  value : Value
  observed : Option Shown

structure Description where
  label : Markup.Label
  text : String

structure AppDescription where
  selector : String
  template : String
  strategy : Strategy
  passes : Nat
  diagnostics : List Diagnostic
  root : String
  attached : Bool

structure Outcome (ρ : Type) where
  result : ρ
  events : List Event
  log : List LogLine
  watched : List Shown

inductive Result
  | done
  | flag (b : Bool)
  | count (n : Nat)
  | text (s : String)
  | optionalText (s : Option String)
  | texts (ss : List String)
  | value (v : Option Value)
  | data (d : Data)
  | shown (s : Shown)
  | element (d : Option Description)
  | elements (ds : List Description)
  | rendered (markup : String) (diagnostics : List Diagnostic)
  | kept (markup : String) (diagnostics : List Diagnostic)
  | expanded (attached : Bool) (generated : List String) (diagnostics : List Diagnostic)
  | expansion (generated : Option (List String)) (markup : String) (attached : Bool)
      (diagnostics : List Diagnostic)
  | updated (called : Bool) (now : Option Value)
  | mounted (app : AppDescription) (inside : Option (List (Outcome Result)))
  | app (d : AppDescription)
  | diagnosticCount (n : Nat)
  | treeError (e : TreeError)
  | mountError (e : MountError)
  | settingsError (e : SettingsError)
  | misplaced (register : Register)

end LivePage.Session
