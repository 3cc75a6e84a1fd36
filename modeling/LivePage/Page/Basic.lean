import LivePage.Mount.Options
import LivePage.Store.Basic
import LivePage.Template.Rendering

namespace LivePage

open Markup Template

abbrev AppId := Nat

/-- An application. Its template is the markup that its root had when it was mounted. -/
structure App where
  selector : String
  template : String
  root : NodeId
  strategy : Strategy
  diagnostics : List Diagnostic
  passes : Nat
deriving Repr

/-- The live nodes, the applications (`none` once dropped) and the log. -/
structure Page where
  forest : Forest := {}
  apps : List (Option App) := []
  log : List LogLine := []
  lastMounted : Option AppId := none
deriving Repr

namespace Page

variable (p : Page)

instance : Inhabited Page := ⟨{}⟩

def app? (a : AppId) : Option App :=
  p.apps[a]?.join

def setApp (a : AppId) (app : App) : Page :=
  { p with apps := p.apps.set a (some app) }

def dropApp (a : AppId) : Page :=
  { p with apps := p.apps.set a none }

def writeLog (level : Level) (text : String) : Page :=
  { p with log := p.log ++ [⟨level, text⟩] }

def emit (d : Diagnostic) : Page :=
  { p with log := p.log ++ [d.logLine] }

def report (a : AppId) (d : Diagnostic) : Page :=
  match p.app? a with
  | none => p
  | some app => (p.emit d).setApp a { app with diagnostics := app.diagnostics ++ [d] }

def clearDiagnostics (a : AppId) : Page :=
  match p.app? a with
  | none => p
  | some app => p.setApp a { app with diagnostics := [] }

end Page

end LivePage
