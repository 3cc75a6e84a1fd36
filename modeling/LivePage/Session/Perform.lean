import LivePage.Session.Reaction

namespace LivePage.Session

open Markup Template

variable (s : Session)

def move : Except TreeError Forest → Session × Result
  | .ok forest => (s.updateForest fun _ ↦ forest, .done)
  | .error e => (s, .treeError e)

def found (i : Option NodeId) (into : Option Register) : Session × Result :=
  (s.update (·.assignTo into (i.map .element)), .element (i.map s.world.describe))

def foundAll (elements : List NodeId) (stem : Option Register) : Session × Result :=
  (s.update (·.assignAll stem elements), .elements (elements.map s.world.describe))

def emitAll (diagnostics : List Diagnostic) : Session :=
  s.updatePage fun p ↦ diagnostics.foldl Page.emit p

def withElement (r : Register) (next : NodeId → Session × Result) : Session × Result :=
  match s.world.element? r with
  | some i => next i
  | none => (s, .misplaced r)

def withData (r : Register) (next : Data → Session × Result) : Session × Result :=
  match s.world.store? r with
  | some k => next (s.world.dataOf k)
  | none => (s, .misplaced r)

def debugOf : Handle → String
  | .document i => "Document \x7b children: [" ++
    ", ".intercalate ((s.world.page.forest.children i).map fun c ↦
      (s.world.page.forest.label c).debug) ++ "] \x7d"
  | .element i => (s.world.page.forest.label i).debug
  | .store k => (s.store k).debug
  | .app a =>
    match s.world.page.app? a with
    | some app => app.debug (s.store (s.world.home a))
    | none => ""

def performDocument (d : NodeId) : DocumentAction → Session × Result
  | .append child => s.withElement child fun c ↦ s.move (s.world.page.forest.append d c)
  | .children stem => s.foundAll (s.world.page.forest.children d) stem
  | .body into => s.found (s.world.page.forest.body? d) into
  | .byId id into => s.found (s.world.page.forest.byId? d id) into
  | .text => (s, .text (s.world.page.forest.textContent d))

def performElement (i : NodeId) : ElementAction → Session × Result
  | .describe => (s, .element (some (s.world.describe i)))
  | .id => (s, .optionalText ((s.world.page.forest.label i).attribute? "id"))
  | .classes => (s, .texts (Selector.classesOf (s.world.page.forest.label i)))
  | .hasAttributes => (s, .flag (!(s.world.page.forest.label i).attributes.isEmpty))
  | .getAttribute name => (s, .optionalText ((s.world.page.forest.label i).attribute? name))
  | .setAttribute name value =>
    let s := s.updateForest (·.setAttribute i name value)
    (s, .element (some (s.world.describe i)))
  | .removeAttribute name =>
    (s.updateForest (·.removeAttribute i name),
      .optionalText ((s.world.page.forest.label i).attribute? name))
  | .children stem => s.foundAll (s.world.page.forest.children i) stem
  | .count => (s, .count (s.world.page.forest.childCount i))
  | .parent into => s.found (s.world.page.forest.parentElement? i) into
  | .hasParent => (s, .flag (s.world.page.forest.parent? i).isSome)
  | .text => (s, .text (s.world.page.forest.textContent i))
  | .setText text =>
    let s := s.updateForest (·.setText i text)
    (s, .text (s.world.page.forest.inner i))
  | .inner => (s, .text (s.world.page.forest.inner i))
  | .setInner source =>
    let s := s.updateForest (·.setInner i source)
    (s, .text (s.world.page.forest.inner i))
  | .outer => (s, .text (s.world.page.forest.outer i))
  | .append child => s.withElement child fun c ↦ s.move (s.world.page.forest.append i c)
  | .insertBefore new reference =>
    s.withElement new fun n ↦ s.withElement reference fun r ↦
      s.move (s.world.page.forest.insertBefore i n r)
  | .removeChild child => s.withElement child fun c ↦ s.move (s.world.page.forest.removeChild i c)
  | .before new => s.withElement new fun n ↦ s.move (s.world.page.forest.before i n)
  | .remove => (s.updateForest (·.remove i), .done)
  | .render store => s.withData store fun data ↦
    let r := Template.render data s.world.page.forest i
    ((s.updateForest fun _ ↦ r.forest).emitAll r.reports, .rendered (r.forest.outer i) r.reports)
  | .substitute store => s.withData store fun data ↦
    let forest := Template.substitute data s.world.page.forest i
    (s.updateForest fun _ ↦ forest, .rendered (forest.outer i) [])
  | .dispatch store stem => s.withData store fun data ↦
    let d := Template.dispatch data s.world.page.forest i
    let s := (s.updateForest fun _ ↦ d.forest).emitAll d.reports
    match d.result with
    | .kept => (s, .kept (d.forest.outer i) d.reports)
    | .expanded generated =>
      (s.update (·.assignAll stem generated),
        .expanded (d.forest.parent? i).isSome (generated.map d.forest.outer) d.reports)
  | .expand store loop stem => s.withData store fun data ↦
    match loop.expand data s.world.page.forest i with
    | .error d =>
      let f := s.world.page.forest
      (s.emitAll [d], .expansion none (f.outer i) (f.parent? i).isSome [d])
    | .ok (generated, f) =>
      ((s.updateForest fun _ ↦ f).update (·.assignAll stem generated),
        .expansion (some (generated.map f.outer)) (f.outer i) (f.parent? i).isSome [])

def performStore (k : StoreId) : StoreAction → Session × Result
  | .get name => (s, .value ((s.world.dataOf k).get? name))
  | .withValue name write =>
    let value := (s.world.dataOf k).get? name
    (match write with
      | some (n, v) => s.run k (.set n v)
      | none => s, .value value)
  | .contains name => (s, .flag ((s.world.dataOf k).contains name))
  | .keys => (s, .texts (s.world.dataOf k).keys)
  | .snapshot => (s, .data (s.world.dataOf k))
  | .set name value => (s.run k (.set name value), .done)
  | .subscriberCount => (s, .count (s.store k).subscribers.length)
  | .update name change =>
    let called := (s.world.dataOf k).contains name
    let s := s.run k (.update name change.script)
    (s, .updated called ((s.world.dataOf k).get? name))
  | .subscribe tag reaction =>
    let s := s.run k (.listen (reaction.subscriber k tag) .stop)
    (s, .count (s.store k).subscribers.length)

def performApp (a : AppId) (app : App) : AppAction → Session × Result
  | .store into => (s.update (·.assignTo into (some (.store (s.world.home a)))), .done)
  | .root into => s.found (some app.root) into
  | .describe => (s, .app (s.world.describeApp app))
  | .rerender =>
    (s.updatePage (·.rerender a (s.world.dataOf (s.world.home a))), .done)
  | .clearDiagnostics => (s.updatePage (·.clearDiagnostics a), .diagnosticCount 0)
  | .report d => (s.updatePage (·.report a d), .diagnosticCount (app.diagnostics.length + 1))

def onPage (change : Page → Page) (w : World) : World :=
  { w with page := change w.page }

def MountSource.read : MountSource → Except SettingsError MountSettings
  | .settings given => .ok given
  | .file format text => MountSettings.read format text

/-- Mounts an application, up to where its callback would run. -/
def beginMount (document : NodeId) (o : MountOptions Unit) : Except MountError AppId × Session :=
  match s.world.page.mount document o with
  | (.error e, page) => (.error e, s.updatePage fun _ ↦ page)
  | (.ok a, page) =>
    let (k, s) := (s.updatePage fun _ ↦ page).addStore (o.store onPage a)
    (.ok a, s.update fun w ↦ { w with homes := w.homes ++ [k] })

def endMount (a : AppId) (into : Option Register) (inside : Option (List (Outcome Result))) :
    Session × Result :=
  let s := (s.updatePage (·.announce a)).update (·.assignTo into (some (.app a)))
  match s.world.page.app? a with
  | some app => (s, .mounted (s.world.describeApp app) inside)
  | none => (s, .done)

def performSimple : Step → Session × Result
  | .clone source into => (s.update fun w ↦ w.assignTo into (w.handle? source), .done)
  | .drop r => (s.update (·.assign r none), .done)
  | .reveal r => (s, .shown (s.world.shown r))
  | .debug r => match s.world.handle? r with
    | some h => (s, .text (s.debugOf h))
    | none => (s, .misplaced r)
  | .eq a b => s.withElement a fun i ↦ s.withElement b fun j ↦ (s, .flag (i = j))
  | .newDocument into =>
    let (i, forest) := s.world.page.forest.newDocument
    ((s.updateForest fun _ ↦ forest).update (·.assignTo into (some (.document i))), .done)
  | .parse source into =>
    let (i, forest) := s.world.page.forest.parse source
    ((s.updateForest fun _ ↦ forest).update (·.assignTo into (some (.document i))),
      .text (forest.inner i))
  | .create tag into =>
    let (i, forest) := s.world.page.forest.create tag
    (s.updateForest fun _ ↦ forest).found (some i) into
  | .newStore data into =>
    let (k, s) := s.addStore (.ofData data)
    (s.update (·.assignTo into (some (.store k))), .done)
  | .query scope selector into => match s.world.node? scope with
    | none => (s, .misplaced scope)
    | some i => match s.world.page.forest.query i selector with
      | .error e => (s, .treeError e)
      | .ok found => s.found found into
  | .queryAll scope selector stem => match s.world.node? scope with
    | none => (s, .misplaced scope)
    | some i => match s.world.page.forest.queryAll i selector with
      | .error e => (s, .treeError e)
      | .ok found => s.foundAll found stem
  | .document r action => match s.world.document? r with
    | some d => s.performDocument d action
    | none => (s, .misplaced r)
  | .element r action => s.withElement r (s.performElement · action)
  | .store r action => match s.world.store? r with
    | some k => s.performStore k action
    | none => (s, .misplaced r)
  | .app r action => match s.world.app? r with
    | some (a, app) => s.performApp a app action
    | none => (s, .misplaced r)
  | .lastMounted into =>
    match s.world.page.lastMounted? with
    | some (a, app) => (s.update (·.assignTo into (some (.app a))), .optionalText app.selector)
    | none => (s.update (·.assignTo into none), .optionalText none)
  | .mount .. => (s, .done)

mutual

def perform (s : Session) : Step → Session × Result
  | .mount r source mounted into =>
    match s.world.document? r, source.read with
    | none, _ => (s, .misplaced r)
    | _, .error e => (s, .settingsError e)
    | some d, .ok settings =>
      match s.beginMount d settings.toOptions with
      | (.error e, s) => (s, .mountError e)
      | (.ok a, s) =>
        let (s, inside) := performInside s d a into mounted
        s.endMount a into inside
  | step => s.performSimple step

/-- Takes the steps of a callback, while the mount holds its document and its application. -/
def performInside (s : Session) (d : NodeId) (a : AppId) (into : Option Register) :
    Option (List Step) → Session × Option (List (Outcome Result))
  | none => (s, none)
  | some steps =>
    let pins := s.pins
    let (s, outcomes) := performAll
      { s.update (·.assignTo into (some (.app a))) with pins := .document d :: .app a :: pins }
      steps
    ({ s with pins }, some outcomes)

def performAll (s : Session) : List Step → Session × List (Outcome Result)
  | [] => (s, [])
  | step :: rest =>
    let (s, result) := perform s step
    let (s, outcome) := s.finish result
    let (s, outcomes) := performAll s rest
    (s, outcome :: outcomes)

end

def outcomes (watch : List Register) (steps : List Step) : List (Outcome Result) :=
  (performAll { watch } steps).2

end LivePage.Session
