import AvatarScripts.Python.Collections
import AvatarScripts.Python.Str
import AvatarScripts.Python.Os
import AvatarScripts.Deps.Graph
import AvatarScripts.Deps.Cycles
import AvatarScripts.Deps.BuildOrder
import AvatarScripts.Deps.Includes
import AvatarScripts.Deps.Discovery
import AvatarScripts.Deps.Builder
import AvatarScripts.Deps.Reports
import AvatarScripts.Deps.Commands
import AvatarScripts.Deps.Main
import AvatarScripts.Deps.CycleTrace
import AvatarScripts.Headers.Templates
import AvatarScripts.Headers.ProcessFile
import AvatarScripts.Headers.Main
import AvatarScripts.Headers.Rerun
import AvatarScripts.Symbols.Parse
import AvatarScripts.Symbols.Analyzer
import AvatarScripts.Symbols.Report
