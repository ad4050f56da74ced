import Restline.CommandLine.Grammar
import Restline.Console

/-!
Options of the program itself, which stand before the name of a command.

* `ProgramOptions`, `ProgramOptions.specs` : the options.
* `ProgramOptions.console` : the console that they ask for.
-/

set_option autoImplicit false

namespace Restline

/-- The options of the program. -/
structure ProgramOptions where
  profile : Option String := none
  endpoint : Option String := none
  metadata : Option String := none
  json : Bool := false
  plain : Bool := false
  noColour : Bool := false
  quiet : Bool := false
  verbose : Bool := false
  /-- Requests are shown and not sent. -/
  dryRun : Bool := false
deriving DecidableEq, Repr

namespace ProgramOptions

/-- The option that asks for the version of the program. -/
def versionSpec : OptionSpec := ⟨"--version", ["--version"], false⟩

/-- The options as the grammar sees them. -/
def specs : List OptionSpec := [
  versionSpec,
  ⟨"profile", ["--profile", "-p"], true⟩,
  ⟨"endpoint", ["--endpoint"], true⟩,
  ⟨"metadata", ["--metadata"], true⟩,
  ⟨"json", ["--json"], false⟩,
  ⟨"plain", ["--plain"], false⟩,
  ⟨"no_color", ["--no-color"], false⟩,
  ⟨"quiet", ["--quiet", "-q"], false⟩,
  ⟨"verbose", ["--verbose", "-v"], false⟩,
  ⟨"dry_run", ["--dry-run", "-n"], false⟩,
  Grammar.helpSpec]

/-- The options that stand for an action of their own. -/
def actions : List String := [versionSpec.name, Grammar.helpSpec.name]

/-- The options that words give. -/
def ofParsed (p : Grammar.Parsed) : ProgramOptions where
  profile := p.value? "profile"
  endpoint := p.value? "endpoint"
  metadata := p.value? "metadata"
  json := p.has "json"
  plain := p.has "plain"
  noColour := p.has "no_color"
  quiet := p.has "quiet"
  verbose := p.has "verbose"
  dryRun := p.has "dry_run"

/-- The style of output that is asked for. -/
def style (o : ProgramOptions) : Option OutputStyle :=
  if o.json then some .json else if o.plain then some .plain else none

/-- The console for a host. -/
def console (o : ProgramOptions) (h : Host) : Console :=
  .ofHost h o.style o.noColour o.quiet o.verbose

end ProgramOptions

end Restline
