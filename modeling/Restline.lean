import Restline.Main
import Restline.Proofs.Bulk
import Restline.Proofs.Preview
import Restline.Proofs.Selection
import Restline.Proofs.Rendering
import Restline.Proofs.Reading
import Restline.Proofs.Template
import Restline.Proofs.IdentifiedPath
import Restline.Proofs.Addressing
import Restline.Proofs.ProgramOptions
import Restline.Proofs.DocumentNames
import Restline.Proofs.TargetVersion
import Restline.Proofs.Dependence
import Restline.Proofs.SelectionById
import Restline.Proofs.QueryParams
import Restline.Proofs.RenderedValues
import Restline.Proofs.LastingFaults
import Restline.Proofs.KeptDocuments
import Restline.Proofs.ListedTree
import Restline.Proofs.ForeseenFaults
import Restline.Proofs.DeclaredArguments
import Restline.Proofs.IdentityRules
import Restline.Proofs.ToldApart
import Restline.Proofs.RunnableLeaf
import Restline.Proofs.GivenBodies
import Restline.Proofs.BundleFaults
import Restline.Proofs.Retries
import Restline.Proofs.GrantedTokens
import Restline.Proofs.ShownResponses
import Restline.Proofs.ShownCredentials
import Restline.Proofs.ForeseenSettings
import Restline.Proofs.KeptFiles
import Restline.Proofs.KeptSettings
import Restline.Proofs.HalfDoneChanges
import Restline.Proofs.Precedence
import Restline.Proofs.AddedProfile
import Restline.Proofs.ShelvedProfiles
import Restline.Proofs.UsualProfile
import Restline.Proofs.ShellWords
import Restline.Proofs.GrownBodies
import Restline.Proofs.PlacedMembers
import Restline.Proofs.WholeParts
import Restline.Proofs.MonotoneConditions
import Restline.Proofs.LocatedCommands
import Restline.Proofs.SentRequests
import Restline.Proofs.Overflow
import Restline.Proofs.SoundNames
import Restline.Proofs.Numerals
import Restline.Proofs.JsonGrammar
import Restline.Proofs.GrammarTexts
import Restline.Proofs.WrittenTexts
import Restline.Proofs.FiniteBodies
import Restline.Proofs.CanonicalNames
import Restline.Proofs.WrittenMetadata
import Restline.Proofs.SetValues
import Restline.Proofs.WholeReplacements
import Restline.Proofs.FollowedWays
